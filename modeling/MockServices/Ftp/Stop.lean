import MockServices.Ftp.Sockets

/-!
# What `stop()` leaves open

`stop()` joins the client loops once both sweeps over the listed clients
are done. A sweep closes the sockets in the client record: the control
socket and the passive listener. The data connection of a transfer is a
local variable of its command, and a listener opened by a command line
that was received before the sweep and executed after it is in no sweep.
An `accept` under way on a listener that a sweep has closed may still get
its data connection.
-/

namespace MockServices.Ftp

open Foundations

/-- While `join_all` runs, nothing that a loop may be blocked on is open. -/
def Service.StopSafe (s : Service) : Prop :=
  s.phase = .joining → ∀ loop ∈ s.loops, ∀ sock, loop.stage.waitsOn = some sock → sock ∈ s.closed

/-- The loop may be blocked on something that no sweep reaches any more: a
data connection, or a listener that is still in the client record. -/
def Loop.outlasts (loop : Loop) : Bool :=
  match loop.stage with
  | .accepting listener _ _ => loop.client.dataSock = some listener
  | .transferring .. => true
  | _ => false

/-- The transfer has something to send or to receive on its data connection. -/
def Transfer.blocks (os : Os) (resolvedPath : Text) (transfer : Transfer) : Bool :=
  (transfer.run os resolvedPath).1.drop 1 ≠ [] || transfer.receives os resolvedPath

/-- The acceptor is joined while no loop outlasts the sweeps. While the loops
are joined no command gets to `accept` on an open listener, and no `accept`
under way gets a data connection for a transfer that may wait on it. -/
def Service.KeepsStopSafe (s : Service) : ServiceEvent → Prop
  | .stopJoinAcceptor => s.phase = .swept → s.acceptor = .finished →
      ∀ loop ∈ s.loops, loop.outlasts = false
  | .client id (.line _) => s.phase = .joining → ∀ loop, s.loops[id]? = some loop →
      ∀ line, loop.nextCommand = some line → waitsFor loop.client line = none
  | .client id (.connected os) => s.phase = .joining → ∀ loop, s.loops[id]? = some loop →
      ∀ listener transfer resolvedPath, loop.stage = .accepting listener transfer resolvedPath →
        ∀ dataSock, os.accept = some dataSock → s.grants dataSock = true →
          transfer.blocks os resolvedPath = false
  | _ => True

/-- A loop waits on its control socket or its listener, or these have been closed. -/
def Loop.Attached (loop : Loop) (closed : Finset RawSocket) : Prop :=
  match loop.stage with
  | .receiving sock => loop.client.sock = some sock ∨ sock ∈ closed
  | .accepting listener _ _ => loop.client.dataSock = some listener ∨ listener ∈ closed
  | _ => True

/-- What a run keeps true, besides its being safe to join the loops. -/
structure Service.Releasing (s : Service) : Prop where
  orderly : s.Orderly
  attached : ∀ loop ∈ s.loops, loop.Attached s.closed
  listed : ∀ id loop, s.loops[id]? = some loop → loop.client.sock ≠ none → id ∈ s.clients
  finished : s.acceptor = .finished → s.clients = []
  joined : s.phase = .joining → s.acceptor = .finished

/-! ## One loop -/

section Loops

variable {loop loop' : Loop} {closed closed' : Finset RawSocket} {sock : RawSocket}

theorem Loop.Attached.mono (h : loop.Attached closed) (hsub : closed ⊆ closed') :
    loop.Attached closed' := by
  unfold Attached at h ⊢
  split
  · next hstage =>
      rw [hstage] at h
      exact h.imp_right fun hmem => hsub hmem
  · next hstage =>
      rw [hstage] at h
      exact h.imp_right fun hmem => hsub hmem
  · trivial

/-- Closing the sockets of the record leaves the loop on closed ones. -/
theorem attached_closeClient (h : loop.Attached closed)
    (hsub : ∀ sock ∈ loop.client.sockets, sock ∈ closed') (hmono : closed ⊆ closed') :
    Loop.Attached { loop with client := (closeClient loop.client).1 } closed' := by
  unfold Loop.Attached at h ⊢
  dsimp only
  split
  · next hstage =>
      rw [hstage] at h
      refine Or.inr (h.elim (fun hsock => hsub _ ?_) fun hmem => hmono hmem)
      simp [Client.sockets, hsock]
  · next hstage =>
      rw [hstage] at h
      refine Or.inr (h.elim (fun hsock => hsub _ ?_) fun hmem => hmono hmem)
      simp [Client.sockets, hsock]
  · trivial

theorem outlasts_held (h : loop.outlasts = true) :
    ∃ sock, loop.stage.waitsOn = some sock ∧ sock ∈ loop.held := by
  unfold Loop.outlasts at h
  split at h
  · next listener _ _ hstage =>
      refine ⟨listener, by rw [hstage]; rfl, ?_⟩
      simp [Loop.held, Client.sockets, of_decide_eq_true h]
  · next dataSock _ _ _ hstage =>
      refine ⟨dataSock, by rw [hstage]; rfl, ?_⟩
      simp [Loop.held, hstage, Stage.dataConnection]
  · cases h

/-- Once the control socket is closed, a loop that does not outlast the sweeps waits on
nothing open. -/
theorem closed_of_not_outlasts (h : loop.Attached closed) (hsock : loop.client.sock = none)
    (houtlasts : loop.outlasts = false) (hwaits : loop.stage.waitsOn = some sock) :
    sock ∈ closed := by
  unfold Loop.Attached at h
  unfold Loop.outlasts at houtlasts
  cases hstage : loop.stage with
  | receiving control =>
      rw [hstage] at h hwaits
      cases hwaits
      simpa [hsock] using h
  | accepting listener transfer resolvedPath =>
      rw [hstage] at h hwaits houtlasts
      cases hwaits
      exact h.resolve_left (of_decide_eq_false houtlasts)
  | transferring dataSock work receives reply => simp [hstage] at houtlasts
  | _ => simp [hstage, Stage.waitsOn] at hwaits

variable {server server' : Server} {m : Move} {effects : List Effect}

theorem sock_of_dispatched {os : Os} {client client' : Client} {line : Text}
    (h : Dispatched os server client line server' client' effects) (hsock : client'.sock ≠ none) :
    client.sock ≠ none := by
  rcases h.sock with heq | ⟨-, hnone⟩
  · rwa [← heq]
  · exact absurd hnone hsock

theorem moved_sock (h : Moved server loop m server' loop' effects)
    (hsock : loop'.client.sock ≠ none) : loop.client.sock ≠ none := by
  cases h with
  | dispatched os line => exact sock_of_dispatched (dispatched os server loop.client line) hsock
  | begun | carried =>
      unfold Loop.transferOn at hsock
      split at hsock
      · exact hsock
      · exact hsock
  | _ => exact hsock

theorem transferOn_attached {dataSock : RawSocket} {work : List Effect} {receives : Bool}
    {reply : Text} : (loop.transferOn dataSock work receives reply).1.Attached closed := by
  unfold Loop.transferOn
  split
  · trivial
  · trivial

theorem moved_attached (h : Moved server loop m server' loop' effects) :
    loop'.Attached closed := by
  cases h with
  | read stage partialLine hm hstage hnext hreceiving =>
      cases stage with
      | receiving sock => exact Or.inl (hreceiving sock rfl)
      | accepting => simp [Stage.reading] at hnext
      | _ => trivial
  | waited os line partialLine listener transfer resolvedPath hcommand hwaits =>
      exact Or.inl (waitsFor_listening hwaits).2
  | dispatched os line partialLine hcommand =>
      simp [Loop.Attached, nextCommand_stage hcommand]
  | begun | carried => exact transferOn_attached
  | refused | left => trivial

end Loops

namespace Service

variable {s t : Service} {id : ClientId} {loop loop' : Loop} {m : Move} {e : ServiceEvent}

theorem clientStep_rest (h : s.clientStep id loop m = some t) :
    t.phase = s.phase ∧ t.acceptor = s.acceptor ∧ s.closed ⊆ t.closed ∧
      (∀ other, other ≠ id → other ∈ s.clients → other ∈ t.clients) ∧
        (s.clients = [] → t.clients = []) := by
  rcases clientStep_cases h with ⟨-, -, rfl⟩ | ⟨server, next, effects, -, -, -, rfl⟩
  · unfold removeClient
    split
    · refine ⟨rfl, rfl, Finset.subset_union_left, fun other hother hmem => ?_, fun hempty => ?_⟩
      · exact (List.mem_erase_of_ne hother).mpr hmem
      · simp [setLoop, settle, hempty]
    · exact ⟨rfl, rfl, Finset.Subset.refl _, fun _ _ hmem => hmem, fun hempty => hempty⟩
  · exact ⟨rfl, rfl, Finset.subset_union_left, fun _ _ hmem => hmem, fun hempty => hempty⟩

theorem clientStep_loop (h : s.clientStep id loop m = some t)
    (hlisted : loop.client.sock ≠ none → id ∈ s.clients) :
    ∃ next, t.loops = s.loops.set id next ∧ next.Attached t.closed ∧
      (next.client.sock ≠ none → id ∈ t.clients) := by
  rcases clientStep_cases h with ⟨-, -, rfl⟩ | ⟨server, next, effects, hmove, -, -, rfl⟩
  · unfold removeClient
    split
    · exact ⟨_, rfl, trivial, fun hsock => absurd rfl hsock⟩
    · exact ⟨_, rfl, trivial, hlisted⟩
  · have hmoved := moved hmove
    exact ⟨next, rfl, moved_attached hmoved, fun hsock => hlisted (moved_sock hmoved hsock)⟩

theorem releasing_clientStep (h : s.Releasing) (hloop : s.loops[id]? = some loop)
    (hstep : s.clientStep id loop m = some t) : t.Releasing := by
  obtain ⟨hphase, hacceptor, hclosed, hothers, hempty⟩ := clientStep_rest hstep
  obtain ⟨next, hloops, hattached, hsock⟩ := clientStep_loop hstep (h.listed id loop hloop)
  refine ⟨orderly_clientStep h.orderly hloop hstep, fun loop' hloop' => ?_,
    fun other loop' hloop' hsock' => ?_, fun hfinished => ?_, fun hjoining => ?_⟩
  · rw [hloops] at hloop'
    rcases List.mem_or_eq_of_mem_set hloop' with hloop' | rfl
    · exact (h.attached loop' hloop').mono hclosed
    · exact hattached
  · rw [hloops] at hloop'
    by_cases hother : id = other
    · subst hother
      rw [List.getElem?_set_self (List.getElem?_eq_some_iff.mp hloop).1] at hloop'
      cases hloop'
      exact hsock hsock'
    · rw [List.getElem?_set_ne hother] at hloop'
      exact hothers other (Ne.symm hother) (h.listed other loop' hloop' hsock')
  · exact hempty (h.finished (hacceptor ▸ hfinished))
  · exact hacceptor ▸ h.joined (hphase ▸ hjoining)

/-- After a sweep no client is listed, and every loop waits on what it has or on
something closed. -/
theorem attached_sweep (h : s.Releasing) : ∀ loop ∈ s.sweep.loops,
    loop.Attached s.sweep.closed ∧ loop.client.sock = none := by
  intro loop hmem
  obtain ⟨id, hid, rfl⟩ := List.mem_mapIdx.mp hmem
  have hloop : s.loops[id]? = some s.loops[id] := List.getElem?_eq_getElem hid
  have hattached := h.attached _ (List.getElem_mem hid)
  split
  · next hlisted =>
      refine ⟨attached_closeClient hattached (fun sock hsock => ?_) Finset.subset_union_left, rfl⟩
      refine Finset.mem_union_right _
        (List.mem_toFinset.mpr (List.mem_flatMap.mpr ⟨id, hlisted, ?_⟩))
      rw [hloop, Option.elim_some, closedBy_closeClient]
      exact hsock
  · next hlisted =>
      refine ⟨hattached.mono Finset.subset_union_left, ?_⟩
      by_contra hsock
      exact hlisted (h.listed id _ hloop hsock)

theorem releasing_sweep (h : s.Releasing) (horderly : t.Orderly) (hloops : t.loops = s.sweep.loops)
    (hclosed : t.closed = s.sweep.closed) (hclients : t.clients = [])
    (hjoined : t.phase = .joining → t.acceptor = .finished) : t.Releasing := by
  refine ⟨horderly, fun loop hloop => ?_, fun id loop hloop hsock => ?_, fun _ => hclients, hjoined⟩
  · rw [hloops] at hloop
    rw [hclosed]
    exact (attached_sweep h loop hloop).1
  · rw [hloops] at hloop
    exact absurd (attached_sweep h loop (List.mem_of_getElem? hloop)).2 hsock

/-- A client that is accepted is listed, and has not entered its loop. -/
theorem releasing_acceptClient (h : s.Releasing) {sock : RawSocket}
    (horderly : (s.acceptClient sock).Orderly) (hwaiting : s.acceptor = .waiting) :
    (s.acceptClient sock).Releasing := by
  refine ⟨horderly, fun loop hloop => ?_, fun id loop hloop hsock => ?_, ?_, fun hjoining => ?_⟩
  · rcases List.mem_append.mp hloop with hloop | hloop
    · exact h.attached loop hloop
    · obtain rfl := List.mem_singleton.mp hloop
      trivial
  · rcases Nat.lt_or_ge id s.loops.length with hlt | hge
    · rw [acceptClient, List.getElem?_append_left hlt] at hloop
      exact List.mem_append_left _ (h.listed id loop hloop hsock)
    · have hlength := (List.getElem?_eq_some_iff.mp hloop).1
      have hid : id = s.loops.length := by
        simp only [acceptClient, List.length_append, List.length_singleton] at hlength
        exact Nat.le_antisymm (Nat.le_of_lt_succ hlength) hge
      simp [acceptClient, hid]
  · simp [acceptClient]
  · simp [h.joined hjoining] at hwaiting

theorem releasing_startLoop (h : s.Releasing) (horderly : (s.startLoop id).Orderly)
    (hstarting : s.acceptor = .starting id) : (s.startLoop id).Releasing := by
  have hbefore : ∀ (other : ClientId) (loop : Loop), (s.startLoop id).loops[other]? = some loop →
      ∃ loop' : Loop, s.loops[other]? = some loop' ∧ loop'.client = loop.client ∧
        (loop'.Attached s.closed → loop.Attached s.closed) := by
    intro other loop hloop
    rw [startLoop, List.getElem?_modify] at hloop
    obtain ⟨loop', hloop', rfl⟩ := Option.map_eq_some_iff.mp hloop
    refine ⟨loop', hloop', ?_⟩
    split
    · exact ⟨rfl, fun _ => trivial⟩
    · exact ⟨rfl, fun hattached => hattached⟩
  refine ⟨horderly, fun loop hloop => ?_, fun other loop hloop hsock => ?_, by simp [startLoop],
    fun hjoining => ?_⟩
  · obtain ⟨other, hother⟩ := List.mem_iff_getElem?.mp hloop
    obtain ⟨loop', hloop', -, hattached⟩ := hbefore other loop hother
    exact hattached (h.attached loop' (List.mem_of_getElem? hloop'))
  · obtain ⟨loop', hloop', hclient, -⟩ := hbefore other loop hloop
    exact h.listed other loop' hloop' (hclient ▸ hsock)
  · simp [h.joined hjoining] at hstarting

theorem releasing_step (h : s.Releasing) (hstep : s.step e = some t) : t.Releasing := by
  have horderly := orderly_step h.orderly hstep
  cases e with
  | client id m =>
      obtain ⟨loop, hloop, hclient⟩ := Option.bind_eq_some_iff.mp hstep
      exact releasing_clientStep h hloop hclient
  | stopSweep =>
      obtain ⟨-, ht⟩ := Option.ite_none_right_eq_some.mp hstep
      cases ht
      exact releasing_sweep h horderly rfl rfl rfl (by simp)
  | acceptorSweep =>
      obtain ⟨-, ht⟩ := Option.ite_none_right_eq_some.mp hstep
      cases ht
      exact releasing_sweep h horderly rfl rfl rfl fun _ => rfl
  | accept sock =>
      obtain ⟨⟨hwaiting, -⟩, ht⟩ := Option.ite_none_right_eq_some.mp hstep
      cases ht
      exact releasing_acceptClient h horderly hwaiting
  | spawn =>
      simp only [step] at hstep
      split at hstep
      · next id hstarting =>
          cases hstep
          exact releasing_startLoop h horderly hstarting
      · cases hstep
  | addUser | addAnonymousUser | clearUsers =>
      cases hstep
      exact ⟨horderly, h.attached, h.listed, h.finished, h.joined⟩
  | start | stopFlag =>
      obtain ⟨-, ht⟩ := Option.ite_none_right_eq_some.mp hstep
      cases ht
      exact ⟨horderly, h.attached, h.listed, by first | exact h.finished | simp, by simp⟩
  | stopJoinAcceptor =>
      obtain ⟨⟨-, hfinished⟩, ht⟩ := Option.ite_none_right_eq_some.mp hstep
      cases ht
      exact ⟨horderly, h.attached, h.listed, h.finished, fun _ => hfinished⟩
  | stopJoined =>
      obtain ⟨-, ht⟩ := Option.ite_none_right_eq_some.mp hstep
      cases ht
      exact ⟨horderly, h.attached, h.listed, h.finished, by simp⟩
  | acceptorCheck =>
      obtain ⟨hhead, ht⟩ := Option.ite_none_right_eq_some.mp hstep
      cases ht
      refine ⟨horderly, h.attached, h.listed, fun hfinished => ?_, fun hjoining => ?_⟩
      · dsimp only at hfinished
        split at hfinished <;> cases hfinished
      · simp [h.joined hjoining] at hhead
  | acceptorAgain | acceptorBreak =>
      obtain ⟨hwaiting, ht⟩ := Option.ite_none_right_eq_some.mp hstep
      cases ht
      refine ⟨horderly, h.attached, h.listed, by simp, fun hjoining => ?_⟩
      simp [h.joined hjoining] at hwaiting

/-! ## Joining the client loops -/

theorem held_open (h : s.Orderly) (hloop : loop ∈ s.loops) {sock : RawSocket}
    (hsock : sock ∈ loop.held) : sock ∉ s.closed := by
  obtain ⟨id, hid⟩ := List.mem_iff_getElem?.mp hloop
  exact h.sound.live id sock (by rwa [custody_holds hid])

/-- Once the acceptor is joined, no control socket is open. -/
theorem sock_of_finished (h : s.Releasing) (hfinished : s.acceptor = .finished)
    (hloop : loop ∈ s.loops) : loop.client.sock = none := by
  obtain ⟨id, hid⟩ := List.mem_iff_getElem?.mp hloop
  by_contra hsock
  have hlisted := h.listed id loop hid hsock
  simp [h.finished hfinished] at hlisted

/-- The acceptor can be joined safely exactly when no loop outlasts the sweeps. -/
theorem stopSafe_stopJoinAcceptor (h : s.Releasing)
    (hfinished : s.acceptor = .finished) :
    StopSafe { s with phase := .joining } ↔ ∀ loop ∈ s.loops, loop.outlasts = false := by
  constructor
  · intro hsafe loop hloop
    by_contra houtlasts
    obtain ⟨sock, hwaits, hheld⟩ := outlasts_held (Bool.eq_true_of_not_eq_false houtlasts)
    exact held_open h.orderly hloop hheld (hsafe rfl loop hloop sock hwaits)
  · intro houtlasts _ loop hloop sock hwaits
    exact closed_of_not_outlasts (h.attached loop hloop) (sock_of_finished h hfinished hloop)
      (houtlasts loop hloop) hwaits

theorem stage_of_not_blocks (loop : Loop) (dataSock : RawSocket) (reply : Text) {os : Os}
    {transfer : Transfer} {resolvedPath : Text} (h : transfer.blocks os resolvedPath = false) :
    (loop.transferOn dataSock ((transfer.run os resolvedPath).1.drop 1)
      (transfer.receives os resolvedPath) reply).1.stage = .lines := by
  obtain ⟨hwork, hreceives⟩ := Bool.or_eq_false_iff.mp h
  have hdone := And.intro (not_not.mp (of_decide_eq_false hwork)) hreceives
  rw [Loop.transferOn, if_pos hdone]

theorem stage_of_blocks (loop : Loop) (dataSock : RawSocket) (reply : Text) {os : Os}
    {transfer : Transfer} {resolvedPath : Text} (h : transfer.blocks os resolvedPath = true) :
    (loop.transferOn dataSock ((transfer.run os resolvedPath).1.drop 1)
      (transfer.receives os resolvedPath) reply).1.stage =
        .transferring dataSock ((transfer.run os resolvedPath).1.drop 1)
          (transfer.receives os resolvedPath) reply := by
  have hgoing : ¬ ((transfer.run os resolvedPath).1.drop 1 = [] ∧
      transfer.receives os resolvedPath = false) := by
    rintro ⟨hwork, hreceives⟩
    simp [Transfer.blocks, hwork, hreceives] at h
  rw [Loop.transferOn, if_neg hgoing]

/-- An `accept` under way gets a data connection, and the loop waits on it. -/
theorem clientStep_connected {os : Os} {listener dataSock : RawSocket} {transfer : Transfer}
    {resolvedPath : Text} (hloop : s.loops[id]? = some loop)
    (hstage : loop.stage = .accepting listener transfer resolvedPath)
    (haccept : os.accept = some dataSock) (hgrants : s.grants dataSock = true)
    (hblocks : transfer.blocks os resolvedPath = true) :
    ∃ t next, s.clientStep id loop (.connected os) = some t ∧ next ∈ t.loops ∧
      next.stage.waitsOn = some dataSock ∧ dataSock ∈ next.held ∧ t.phase = s.phase := by
  obtain ⟨hfirst, -⟩ := plain_of_sublist (List.take_sublist 1 _)
    (openedBy_transfer os transfer resolvedPath)
  have hmove : ∃ effects, openedBy effects = [dataSock] ∧
      loop.move s.server (.connected os) = some (s.server,
        (Loop.transferOn { loop with client := (closePasv loop.client).1 } dataSock
          ((transfer.run os resolvedPath).1.drop 1) (transfer.receives os resolvedPath)
          (transfer.run os resolvedPath).2).1, effects) := by
    simp only [Loop.move, hstage, haccept]
    refine ⟨_, ?_, rfl⟩
    rw [openedBy_append, openedBy_append, hfirst, (transferOn_held _ _ _ _ _).2]
    simp [closePasv]
  obtain ⟨effects, hconnection, hmove⟩ := hmove
  have hstep := clientStep_of_grants id hmove (by simp [hconnection])
    (by simpa [hconnection] using hgrants)
  have hwaiting := stage_of_blocks { loop with client := (closePasv loop.client).1 } dataSock
    (transfer.run os resolvedPath).2 hblocks
  refine ⟨_, _, hstep, List.mem_of_getElem? (List.getElem?_set_self
    (List.getElem?_eq_some_iff.mp hloop).1), ?_, ?_, rfl⟩
  · exact congrArg Stage.waitsOn hwaiting
  · exact List.mem_append_right _ (Option.mem_toList.mpr (congrArg Stage.dataConnection hwaiting))

/-- While the loops are joined, a loop's own step leaves it on something closed. -/
theorem closed_of_moved {server : Server} {effects : List Effect} (h : s.Releasing)
    (hsafe : s.StopSafe) (hjoining : s.phase = .joining)
    (hmoved : Moved s.server loop m server loop' effects)
    (hgrants : ∀ sock ∈ openedBy effects, s.grants sock = true) (hid : s.loops[id]? = some loop)
    (hkeeps : s.KeepsStopSafe (.client id m)) {sock : RawSocket}
    (hwaits : loop'.stage.waitsOn = some sock) : sock ∈ s.closed := by
  have hloop := List.mem_of_getElem? hid
  have hcontrol := sock_of_finished h (h.joined hjoining) hloop
  cases hmoved with
  | read stage partialLine hm hstage hnext hreceiving =>
      cases stage with
      | receiving control => simp [hreceiving control rfl] at hcontrol
      | accepting => simp [Stage.reading] at hnext
      | transferring => simp [Stage.reading] at hnext
      | _ => cases hwaits
  | waited os line partialLine listener transfer resolvedPath hcommand hwaitsFor =>
      simp [hkeeps hjoining loop hid line hcommand] at hwaitsFor
  | dispatched os line partialLine hcommand =>
      simp [nextCommand_stage hcommand, Stage.waitsOn] at hwaits
  | refused | left => cases hwaits
  | begun os listener dataSock transfer resolvedPath hstage haccept =>
      -- The listener may be closed already, and its `accept` still answers.
      have hblocks := hkeeps hjoining loop hid listener transfer resolvedPath hstage dataSock
        haccept (hgrants dataSock (by simp))
      rw [stage_of_not_blocks _ _ _ hblocks] at hwaits
      cases hwaits
  | carried dataSock work rest receives next reply hstage =>
      have hdata := hsafe hjoining loop hloop dataSock (by rw [hstage]; rfl)
      unfold Loop.transferOn at hwaits
      split at hwaits
      · cases hwaits
      · cases hwaits
        exact hdata

theorem stopSafe_clientStep (h : s.Releasing) (hsafe : s.StopSafe)
    (hloop : s.loops[id]? = some loop) (hstep : s.clientStep id loop m = some t)
    (hkeeps : s.KeepsStopSafe (.client id m)) : t.StopSafe := by
  obtain ⟨hphase, -, hclosed, -, -⟩ := clientStep_rest hstep
  intro hjoining other hother sock hwaits
  rw [hphase] at hjoining
  rcases clientStep_cases hstep with ⟨-, -, rfl⟩ | ⟨server, next, effects, hmove, -, hgrants, rfl⟩
  · have hdone : ∃ next, (s.removeClient id loop).loops = s.loops.set id next ∧
        next.stage = .done := by
      unfold removeClient
      split
      · exact ⟨_, rfl, rfl⟩
      · exact ⟨_, rfl, rfl⟩
    obtain ⟨next, hloops, hstage⟩ := hdone
    rw [hloops] at hother
    rcases List.mem_or_eq_of_mem_set hother with hother | rfl
    · exact hclosed (hsafe hjoining other hother sock hwaits)
    · simp [hstage, Stage.waitsOn] at hwaits
  · rcases List.mem_or_eq_of_mem_set hother with hother | rfl
    · exact hclosed (hsafe hjoining other hother sock hwaits)
    · have hmoved := moved hmove
      exact hclosed (closed_of_moved h hsafe hjoining hmoved hgrants hloop hkeeps hwaits)

/-- The step lemma: a step that meets the condition leaves nothing open that a loop may be
blocked on. -/
theorem stopSafe_step (h : s.Releasing) (hsafe : s.StopSafe) (hkeeps : s.KeepsStopSafe e)
    (hstep : s.step e = some t) : t.StopSafe := by
  cases e with
  | client id m =>
      obtain ⟨loop, hloop, hclient⟩ := Option.bind_eq_some_iff.mp hstep
      exact stopSafe_clientStep h hsafe hloop hclient hkeeps
  | stopJoinAcceptor =>
      obtain ⟨⟨hphase, hfinished⟩, ht⟩ := Option.ite_none_right_eq_some.mp hstep
      cases ht
      exact (stopSafe_stopJoinAcceptor h hfinished).mpr (hkeeps hphase hfinished)
  | spawn =>
      simp only [step] at hstep
      split at hstep
      · next id hstarting =>
          cases hstep
          intro hjoining
          simp [h.joined hjoining] at hstarting
      · cases hstep
  | acceptorSweep | accept =>
      obtain ⟨henabled, ht⟩ := Option.ite_none_right_eq_some.mp hstep
      cases ht
      intro hjoining
      simp [h.joined hjoining] at henabled
  | addUser | addAnonymousUser | clearUsers =>
      cases hstep
      exact hsafe
  | acceptorCheck | acceptorAgain | acceptorBreak =>
      obtain ⟨-, ht⟩ := Option.ite_none_right_eq_some.mp hstep
      cases ht
      exact hsafe
  | _ =>
      obtain ⟨-, ht⟩ := Option.ite_none_right_eq_some.mp hstep
      cases ht
      intro hjoining
      cases hjoining

/-- A step that misses the condition leaves a loop blocked. -/
theorem not_stopSafe_step (h : s.Releasing) (hkeeps : ¬ s.KeepsStopSafe e) :
    ∃ t, s.step e = some t ∧ ¬ t.StopSafe := by
  unfold KeepsStopSafe at hkeeps
  split at hkeeps
  · simp only [Classical.not_imp] at hkeeps
    obtain ⟨hphase, hfinished, houtlasts⟩ := hkeeps
    refine ⟨{ s with phase := .joining }, by simp [step, hphase, hfinished], ?_⟩
    rwa [stopSafe_stopJoinAcceptor h hfinished]
  · next id os =>
      push Not at hkeeps
      obtain ⟨hjoining, loop, hloop, line, hline, hwaits⟩ := hkeeps
      obtain ⟨⟨listener, transfer, resolvedPath⟩, hwaits⟩ := Option.ne_none_iff_exists'.mp hwaits
      obtain ⟨partialLine, -, hmove⟩ := move_line os s.server hline
      rw [hwaits] at hmove
      have hstep := clientStep_of_move (s := s) id hmove (by simp)
      refine ⟨_, by rw [step, hloop, Option.bind_some, hstep], fun hsafe => ?_⟩
      have hmem := List.mem_of_getElem? hloop
      have hheld : listener ∈ loop.held := by
        simp [Loop.held, Client.sockets, (waitsFor_listening hwaits).2]
      apply held_open h.orderly hmem hheld
      have hclosed := hsafe hjoining _ (List.mem_of_getElem? (List.getElem?_set_self
        (List.getElem?_eq_some_iff.mp hloop).1)) listener rfl
      simpa [setLoop, settle] using hclosed
  · next id os =>
      push Not at hkeeps
      obtain ⟨hjoining, loop, hloop, listener, transfer, resolvedPath, hstage, dataSock, haccept,
        hgrants, hblocks⟩ := hkeeps
      obtain ⟨t, next, hclient, hnext, hwaits, hheld, hphase⟩ :=
        clientStep_connected hloop hstage haccept hgrants
          (Bool.eq_true_of_not_eq_false hblocks)
      have hstep : s.step (.client id (.connected os)) = some t := by
        rw [step, hloop, Option.bind_some, hclient]
      refine ⟨t, hstep, fun hsafe => ?_⟩
      have hopen := held_open (releasing_step h hstep).orderly hnext hheld
      exact hopen (hsafe (hphase.trans hjoining) next hnext dataSock hwaits)
  · exact absurd trivial hkeeps

end Service

/-- A server that has not been started. -/
def Service.fresh (tmp : Text) : Service := { server := { tmp } }

theorem releasing_fresh (tmp : Text) : (Service.fresh tmp).Releasing where
  orderly := ⟨Custody.sound_empty, by simp [Service.fresh], by simp [Service.fresh]⟩
  attached := by simp [Service.fresh]
  listed := by simp [Service.fresh]
  finished _ := rfl
  joined := by simp [Service.fresh]

/-- `stop()` joins no blocked loop. In every interleaving of `stop()`, the
accept loop and the client loops, nothing that a loop may be blocked on is
open while the loops are joined exactly when the acceptor is joined with no
loop outlasting the sweeps, and after that no command gets to `accept` and
no `accept` under way gets a connection that its transfer may wait on. -/
theorem stop_joins_no_blocked_loop_iff (tmp : Text) (events : List ServiceEvent) :
    Always Service.step Service.StopSafe (Service.fresh tmp) events ↔
      Along Service.step Service.KeepsStopSafe (Service.fresh tmp) events := by
  refine always_iff_along (I := fun s : Service => s.Releasing ∧ s.StopSafe) (fun s h => h.2)
    (fun s e t h hkeeps hstep => ?_) (fun s e h hkeeps => ?_) ⟨releasing_fresh tmp, ?_⟩ events
  · exact ⟨Service.releasing_step h.1 hstep, Service.stopSafe_step h.1 h.2 hkeeps hstep⟩
  · exact Service.not_stopSafe_step h.1 hkeeps
  · intro hjoining
    cases hjoining

/-- A client is in the middle of STOR, with its data connection open and
nothing sent on it, when the server is stopped. -/
theorem stop_joins_blocked_loop :
    ¬ ∀ tmp events, Always Service.step Service.StopSafe (Service.fresh tmp) events := by
  intro h
  let events : List ServiceEvent :=
    [.addAnonymousUser "/" FtpPermission.all, .start, .acceptorCheck, .accept 4, .spawn,
      .client 0 .enter,
      .client 0 (.received (some "USER anonymous\nPASV\nSTOR a\n")),
      .client 0 (.line grantingOs), .client 0 (.line grantingOs), .client 0 (.line grantingOs),
      .client 0 (.connected grantingOs), .stopFlag, .stopSweep, .acceptorCheck, .acceptorSweep,
      .stopJoinAcceptor]
  have hrun : ((run Service.step (Service.fresh "/tmp/ms") events).any fun s =>
      decide (s.phase = .joining ∧ (s.loops.map fun loop => loop.stage.waitsOn) = [some 8] ∧
        8 ∉ s.closed)) = true := by
    decide +kernel
  obtain ⟨final, hfinal, hlast⟩ := (Option.any_eq_true _ _).mp hrun
  obtain ⟨hjoining, hwaits, hopen⟩ := of_decide_eq_true hlast
  obtain ⟨loop, hloop, hloop'⟩ := List.mem_map.mp (hwaits ▸ List.mem_singleton_self (some 8))
  exact hopen ((h _ events).of_run hfinal hjoining loop hloop 8 hloop')

end MockServices.Ftp
