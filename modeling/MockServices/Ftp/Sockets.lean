import MockServices.Foundations.Custody
import MockServices.Ftp.Service

/-!
# The sockets of the client loops

A loop holds its control socket, its passive listener and, while a
transfer goes on, the data connection. Whatever a step opens it holds or
closes, and it closes nothing else: over any run each socket is held by
the client it was handed out to until it is closed.
-/

namespace MockServices.Ftp

open Foundations

def Client.sockets (client : Client) : List RawSocket :=
  client.sock.toList ++ client.dataSock.toList

/-- What is held after a command and what it closed are what was held
before and what it opened. -/
def Balanced (client : Client) (outcome : Outcome) : Prop :=
  (outcome.1.sockets ++ closedBy outcome.2).Perm (client.sockets ++ openedBy outcome.2)

theorem balanced_iff_count {client : Client} {outcome : Outcome} : Balanced client outcome ↔
    ∀ sock, outcome.1.sockets.count sock + (closedBy outcome.2).count sock =
      client.sockets.count sock + (openedBy outcome.2).count sock := by
  simp only [Balanced, List.perm_iff_count, List.count_append]

/-! ## Commands -/

section Commands

variable {client : Client}

theorem sockets_of_onlyReplies {effects : List Effect} (h : OnlyReplies effects) :
    openedBy effects = [] ∧ closedBy effects = [] := by
  refine ⟨List.filterMap_eq_nil_iff.mpr fun e he => ?_,
    List.filterMap_eq_nil_iff.mpr fun e he => ?_⟩
  · obtain ⟨msg, rfl⟩ := h e he
    rfl
  · obtain ⟨msg, rfl⟩ := h e he
    rfl

theorem openedBy_transfer (os : Os) (transfer : Transfer) (resolvedPath : Text) :
    openedBy (transfer.run os resolvedPath).1 = [] ∧
      closedBy (transfer.run os resolvedPath).1 = [] := by
  cases transfer with
  | list => exact ⟨rfl, rfl⟩
  | retr =>
      simp only [Transfer.run, retrTransfer]
      split
      · exact ⟨rfl, rfl⟩
      · simp [openedBy, closedBy]
  | stor =>
      simp only [Transfer.run, storTransfer]
      split
      · simp [openedBy, closedBy]
      · exact ⟨rfl, rfl⟩

theorem balanced_withData (os : Os) (transfer : Transfer) (resolvedPath : Text) :
    Balanced client (withData os client (transfer.run os resolvedPath)) := by
  obtain ⟨hopened, hclosed⟩ := openedBy_transfer os transfer resolvedPath
  by_cases hlistening : client.pasv = true ∧ client.dataSock ≠ none
  · obtain ⟨hpasv, hne⟩ := hlistening
    obtain ⟨listener, hlistener⟩ := Option.ne_none_iff_exists'.mp hne
    rw [withData_listening os _ hpasv hlistener]
    refine balanced_iff_count.mpr fun sock => ?_
    cases os.accept with
    | none => simp [closePasv, Client.sockets, List.count_append]
    | some dataSock =>
        simp [closePasv, hopened, hclosed, Client.sockets, List.count_append, List.count_cons]
        omega
  · rw [withData_idle os _ hlistening]
    simp [Balanced]

theorem accountRoot_opened (tmp root : Text) : openedBy (accountRoot tmp root).2 = [] ∧
    closedBy (accountRoot tmp root).2 = [] := by
  rcases accountRoot_cases tmp root with hroot | hroot
  · rw [hroot]
    exact ⟨rfl, rfl⟩
  · rw [hroot]
    exact ⟨rfl, rfl⟩

theorem Verb.call_opened {verb : Verb} {path : Text} {call : Effect}
    (h : verb.call path = some call) (replies : List Effect) :
    openedBy (call :: replies) = openedBy replies ∧
      closedBy (call :: replies) = closedBy replies := by
  cases verb <;> cases h <;> exact ⟨rfl, rfl⟩

theorem balanced_of_dispatched {os : Os} {server server' : Server} {client' : Client}
    {line : Text} {effects : List Effect}
    (h : Dispatched os server client line server' client' effects) :
    Balanced client (client', effects) := by
  cases h with
  | answered replies h | named user replies _ _ _ h | admitted user replies _ _ _ h
  | moved cwd replies _ _ _ h =>
      obtain ⟨hopened, hclosed⟩ := sockets_of_onlyReplies h
      simp [Balanced, Client.sockets, hopened, hclosed]
  | entered user replies _ _ _ _ _ h =>
      obtain ⟨hopened, hclosed⟩ := sockets_of_onlyReplies h
      obtain ⟨hopened', hclosed'⟩ := accountRoot_opened server.tmp user.root
      simp [Balanced, Client.sockets, hopened, hclosed, hopened', hclosed']
  | gaveUp opened replies _ _ h =>
      obtain ⟨hopened, hclosed⟩ := sockets_of_onlyReplies h
      refine balanced_iff_count.mpr fun sock => ?_
      cases opened with
      | none => simp [closePasv, Client.sockets, hopened, hclosed]
      | some dataSock =>
          simp [closePasv, Client.sockets, hopened, hclosed]
          omega
  | listening dataSock replies _ _ h =>
      obtain ⟨hopened, hclosed⟩ := sockets_of_onlyReplies h
      refine balanced_iff_count.mpr fun sock => ?_
      simp [closePasv, Client.sockets, hopened, hclosed]
      omega
  | transferred transfer path => exact balanced_withData os transfer path
  | called verb path call replies _ _ _ hcall h =>
      obtain ⟨hopened, hclosed⟩ := sockets_of_onlyReplies h
      obtain ⟨hopened', hclosed'⟩ := Verb.call_opened hcall replies
      simp [Balanced, hopened, hclosed, hopened', hclosed']
  | quit replies _ h =>
      obtain ⟨hopened, hclosed⟩ := sockets_of_onlyReplies h
      simp [Balanced, closeClient, closePasv, Client.sockets, hopened, hclosed]

end Commands

/-! ## Loops -/

def Stage.dataConnection : Stage → Option RawSocket
  | .transferring dataSock _ _ _ => some dataSock
  | _ => none

def Loop.held (loop : Loop) : List RawSocket :=
  loop.client.sockets ++ loop.stage.dataConnection.toList

theorem held_of_reading {loop : Loop} (h : loop.stage.reading = true) :
    loop.held = loop.client.sockets := by
  unfold Loop.held
  cases hstage : loop.stage <;> simp_all [Stage.reading, Stage.dataConnection]

/-- The data connection is held by a transfer that goes on, and closed when it does not. -/
theorem transferOn_held (loop : Loop) (dataSock : RawSocket) (work : List Effect)
    (receives : Bool) (reply : Text) :
    ((loop.transferOn dataSock work receives reply).1.held ++
      closedBy (loop.transferOn dataSock work receives reply).2).Perm
        (loop.client.sockets ++ [dataSock]) ∧
      openedBy (loop.transferOn dataSock work receives reply).2 = [] := by
  unfold Loop.transferOn
  split
  · simp [Loop.held, Stage.dataConnection]
  · simp [Loop.held, Stage.dataConnection, openedBy, closedBy]

/-- What is left to do of a transfer opens and closes no socket. -/
def Stage.Plain : Stage → Prop
  | .transferring _ work _ _ => openedBy work = [] ∧ closedBy work = []
  | _ => True

theorem transferOn_plain {loop : Loop} {dataSock : RawSocket} {work : List Effect}
    {receives : Bool} {reply : Text} (h : openedBy work = [] ∧ closedBy work = []) :
    (loop.transferOn dataSock work receives reply).1.stage.Plain := by
  unfold Loop.transferOn
  split
  · trivial
  · exact h

/-- A part of the effects opens and closes nothing when the whole does not. -/
theorem plain_of_sublist {es fs : List Effect} (hsub : es.Sublist fs)
    (h : openedBy fs = [] ∧ closedBy fs = []) : openedBy es = [] ∧ closedBy es = [] :=
  ⟨List.sublist_nil.mp (h.1 ▸ hsub.filterMap _), List.sublist_nil.mp (h.2 ▸ hsub.filterMap _)⟩

theorem nextCommand_stage {loop : Loop} {line : Text} (h : loop.nextCommand = some line) :
    loop.stage = .lines := (nextCommand_eq_some_iff.mp h).1

theorem moved_plain {server server' : Server} {loop loop' : Loop} {m : Move}
    {effects : List Effect} (h : Moved server loop m server' loop' effects)
    (hplain : loop.stage.Plain) : loop'.stage.Plain := by
  cases h with
  | read stage partialLine hm hstage hnext =>
      cases stage <;> first | trivial | simp [Stage.reading] at hnext
  | waited | refused | left => trivial
  | dispatched => exact hplain
  | begun os listener dataSock transfer resolvedPath =>
      exact transferOn_plain
        (plain_of_sublist (List.drop_sublist 1 _) (openedBy_transfer os transfer resolvedPath))
  | carried dataSock work rest receives next reply hstage hrest =>
      rw [hstage] at hplain
      exact transferOn_plain (plain_of_sublist (hrest ▸ List.drop_sublist 1 work) hplain)

/-- A loop keeps or closes what it held and opened, and nothing else. -/
theorem moved_held {server server' : Server} {loop loop' : Loop} {m : Move}
    {effects : List Effect} (h : Moved server loop m server' loop' effects)
    (hplain : loop.stage.Plain) :
    (loop'.held ++ closedBy effects).Perm (loop.held ++ openedBy effects) := by
  cases h with
  | read stage partialLine hm hstage hnext =>
      have hstage' : stage.dataConnection = none := by
        cases stage <;> first | rfl | simp [Stage.reading] at hnext
      rw [held_of_reading hstage, Loop.held, hstage']
      simp [openedBy, closedBy]
  | waited os line partialLine listener transfer resolvedPath hcommand hwaits =>
      simp [Loop.held, nextCommand_stage hcommand, Stage.dataConnection]
  | dispatched os line partialLine hcommand hwaits =>
      have hbalanced := balanced_of_dispatched (dispatched os server loop.client line)
      rw [Balanced] at hbalanced
      simpa [Loop.held, nextCommand_stage hcommand, Stage.dataConnection] using hbalanced
  | refused os listener transfer resolvedPath hstage haccept =>
      simp [Loop.held, hstage, Stage.dataConnection, closePasv, Client.sockets]
  | begun os listener dataSock transfer resolvedPath hstage haccept =>
      obtain ⟨hfirst, hfirst'⟩ := plain_of_sublist (List.take_sublist 1 _)
        (openedBy_transfer os transfer resolvedPath)
      obtain ⟨hheld, hopened⟩ := transferOn_held { loop with client := (closePasv loop.client).1 }
        dataSock ((transfer.run os resolvedPath).1.drop 1) (transfer.receives os resolvedPath)
        (transfer.run os resolvedPath).2
      refine List.perm_iff_count.mpr fun sock => ?_
      have hcount := List.perm_iff_count.mp hheld sock
      simp only [List.count_append, closedBy_append, openedBy_append, closedBy_cons_open,
        openedBy_cons_open, List.cons_append, hfirst, hfirst', hopened] at hcount ⊢
      simp [Loop.held, hstage, Stage.dataConnection, closePasv, Client.sockets,
        List.count_append, List.count_cons] at hcount ⊢
      omega
  | carried dataSock work rest receives next reply hstage hrest hnext =>
      rw [hstage] at hplain
      obtain ⟨hfirst, hfirst'⟩ := plain_of_sublist (List.take_sublist 1 work) hplain
      obtain ⟨hheld, hopened⟩ := transferOn_held loop dataSock rest next reply
      simpa [hfirst, hfirst', hopened, Loop.held, hstage, Stage.dataConnection] using hheld
  | left hstage => simp [Loop.held, hstage, Stage.dataConnection, openedBy, closedBy]

/-! ## The service -/

namespace Service

def custody (s : Service) : Custody ClientId RawSocket where
  holds id := s.loops[id]?.elim [] Loop.held
  owner := s.owner
  released := s.closed

/-- The sockets are in order, and a loop about to be started has not begun. -/
structure Orderly (s : Service) : Prop where
  sound : s.custody.Sound
  plain : ∀ loop ∈ s.loops, loop.stage.Plain
  starting : ∀ id, s.acceptor = .starting id → ∀ loop, s.loops[id]? = some loop →
    loop.stage = .accepted

variable {s t : Service} {id : ClientId} {loop next : Loop} {e : ServiceEvent}

theorem custody_holds (h : s.loops[id]? = some loop) : s.custody.holds id = loop.held := by
  simp [custody, h]

/-- A client's step is an exchange of its sockets. -/
theorem custody_settle (hloop : s.loops[id]? = some loop) (effects : List Effect) :
    ((s.settle id effects).setLoop id next).custody =
      s.custody.exchange id (openedBy effects) (closedBy effects) next.held := by
  have hlength := (List.getElem?_eq_some_iff.mp hloop).1
  unfold custody Custody.exchange
  congr 1
  funext other
  by_cases hother : other = id
  · subst hother
    simp [setLoop, settle, hlength]
  · simp [setLoop, settle, hother, List.getElem?_set_ne (Ne.symm hother)]

theorem custody_acceptClient (sock : RawSocket) :
    (s.acceptClient sock).custody =
      s.custody.exchange s.loops.length [sock] [] [sock] := by
  unfold custody Custody.exchange acceptClient
  congr 1
  · funext other
    by_cases hother : other = s.loops.length
    · subst hother
      simp [Loop.held, Client.sockets, Stage.dataConnection]
    · rw [Function.update_of_ne hother, List.getElem?_append]
      split
      · rfl
      · next hlength =>
          have hgap : 0 < other - s.loops.length :=
            Nat.sub_pos_of_lt (Nat.lt_of_le_of_ne (Nat.le_of_not_lt hlength) (Ne.symm hother))
          change _ = s.loops[other]?.elim [] Loop.held
          rw [List.getElem?_eq_none (Nat.le_of_not_lt hlength), List.getElem?_eq_none hgap]
  · funext other
    simp [Function.update_apply]
  · simp

theorem closedBy_closeClient (client : Client) :
    closedBy (closeClient client).2 = client.sockets := by
  simp [closeClient, closePasv, Client.sockets]

theorem sockets_closeClient (client : Client) : (closeClient client).1.sockets = [] := rfl

/-- A sweep closes what the listed clients hold, except for data connections. -/
theorem sound_sweep (h : s.custody.Sound) : s.sweep.custody.Sound := by
  have hloops : ∀ id loop, s.loops[id]? = some loop → s.sweep.custody.holds id =
      if id ∈ s.clients then loop.stage.dataConnection.toList else loop.held := by
    intro id loop hloop
    simp only [custody, sweep, List.getElem?_mapIdx, hloop, Option.map_some, Option.elim_some]
    split
    · rfl
    · rfl
  refine h.release rfl (fun id => ?_) fun sock hsock => ?_
  · cases hloop : s.loops[id]? with
    | none => simp [custody, sweep, hloop]
    | some loop =>
        rw [hloops id loop hloop, custody_holds hloop]
        split
        · exact List.sublist_append_right _ _
        · exact List.Sublist.refl _
  · rcases Finset.mem_union.mp hsock with hsock | hsock
    · exact Or.inl hsock
    · obtain ⟨id, hid, hclosed⟩ := List.mem_flatMap.mp (List.mem_toFinset.mp hsock)
      cases hloop : s.loops[id]? with
      | none => simp [hloop] at hclosed
      | some loop =>
          rw [hloop, Option.elim_some, closedBy_closeClient] at hclosed
          have honce := h.once id
          rw [custody_holds hloop, Loop.held] at honce
          refine Or.inr ⟨id, ?_, ?_⟩
          · rw [custody_holds hloop]
            exact List.mem_append_left _ hclosed
          · rw [hloops id loop hloop, if_pos hid]
            exact fun hdata => (List.nodup_append.mp honce).2.2 sock hclosed sock hdata rfl

theorem openedBy_closeClient (client : Client) : openedBy (closeClient client).2 = [] := by
  simp [closeClient, closePasv]

theorem sound_settle (h : s.custody.Sound) (hloop : s.loops[id]? = some loop)
    {effects : List Effect}
    (hheld : (next.held ++ closedBy effects).Perm (loop.held ++ openedBy effects))
    (hfresh : ∀ sock ∈ openedBy effects, s.owner sock = none) (honce : (openedBy effects).Nodup) :
    ((s.settle id effects).setLoop id next).custody.Sound := by
  rw [custody_settle hloop]
  refine h.exchange ?_ hfresh honce
  rw [custody_holds hloop]
  exact hheld

theorem sound_removeClient (h : s.custody.Sound) (hloop : s.loops[id]? = some loop)
    (hstage : loop.stage = .removing) : (s.removeClient id loop).custody.Sound := by
  have hheld : loop.held = loop.client.sockets := by
    simp [Loop.held, hstage, Stage.dataConnection]
  unfold removeClient
  split
  · refine sound_settle (s := { s with clients := s.clients.erase id }) h hloop ?_ ?_ ?_
    · rw [closedBy_closeClient, openedBy_closeClient, hheld]
      simp [Loop.held, Stage.dataConnection, sockets_closeClient]
    · simp [openedBy_closeClient]
    · simp [openedBy_closeClient]
  · have hsettle : s.setLoop id { loop with stage := .done } =
        (s.settle id []).setLoop id { loop with stage := .done } := by
      simp [settle, setLoop, openedBy, closedBy]
    rw [hsettle]
    refine sound_settle h hloop ?_ (by simp [openedBy]) (by simp [openedBy])
    rw [hheld]
    simp [Loop.held, Stage.dataConnection, openedBy, closedBy]

theorem loops_clientStep {m : Move} (h : s.clientStep id loop m = some t) :
    ∃ next, t.loops = s.loops.set id next ∧ t.acceptor = s.acceptor := by
  rcases clientStep_cases h with ⟨-, -, rfl⟩ | ⟨server, next, effects, -, -, -, rfl⟩
  · unfold removeClient
    split
    · exact ⟨_, rfl, rfl⟩
    · exact ⟨_, rfl, rfl⟩
  · exact ⟨next, rfl, rfl⟩

theorem stage_of_clientStep {m : Move} (h : s.clientStep id loop m = some t) :
    loop.stage ≠ .accepted := by
  intro hstage
  simp [clientStep, Loop.move, hstage] at h

theorem plain_clientStep {m : Move} (hplain : loop.stage.Plain)
    (h : s.clientStep id loop m = some t) :
    ∃ next, t.loops = s.loops.set id next ∧ next.stage.Plain := by
  rcases clientStep_cases h with ⟨-, -, rfl⟩ | ⟨server, next, effects, hmove, -, -, rfl⟩
  · unfold removeClient
    split
    · exact ⟨_, rfl, trivial⟩
    · exact ⟨_, rfl, trivial⟩
  · exact ⟨next, rfl, moved_plain (moved hmove) hplain⟩

theorem orderly_clientStep {m : Move} (h : s.Orderly) (hloop : s.loops[id]? = some loop)
    (hstep : s.clientStep id loop m = some t) : t.Orderly := by
  have hplain := h.plain loop (List.mem_of_getElem? hloop)
  refine ⟨?_, ?_, ?_⟩
  · rcases clientStep_cases hstep with
      ⟨hstage, -, rfl⟩ | ⟨server, next, effects, hmove, honce, hfresh, rfl⟩
    · exact sound_removeClient h.sound hloop hstage
    · have hheld := moved_held (moved hmove) hplain
      refine sound_settle (s := { s with server }) h.sound hloop hheld (fun sock hsock => ?_) honce
      exact owner_of_grants (hfresh sock hsock)
  · obtain ⟨next, hloops, hnext⟩ := plain_clientStep hplain hstep
    intro loop' hloop'
    rw [hloops] at hloop'
    rcases List.mem_or_eq_of_mem_set hloop' with hloop' | rfl
    · exact h.plain loop' hloop'
    · exact hnext
  · obtain ⟨next, hloops, hacceptor⟩ := loops_clientStep hstep
    intro other hother loop' hloop'
    rw [hacceptor] at hother
    have hne : id ≠ other := by
      rintro rfl
      exact stage_of_clientStep hstep (h.starting id hother loop hloop)
    rw [hloops, List.getElem?_set_ne hne] at hloop'
    exact h.starting other hother loop' hloop'

theorem orderly_sweep (h : s.Orderly) (hacceptor : ∀ id, t.acceptor = .starting id →
    s.acceptor = .starting id) (hloops : t.loops = s.sweep.loops) (howner : t.owner = s.owner)
    (hclosed : t.closed = s.sweep.closed) : t.Orderly := by
  have hcustody : t.custody = s.sweep.custody := by
    unfold custody
    rw [hloops, howner, hclosed]
    rfl
  refine ⟨hcustody ▸ sound_sweep h.sound, fun loop hloop => ?_, fun id hid loop hloop => ?_⟩
  · rw [hloops, sweep] at hloop
    obtain ⟨id, hid, rfl⟩ := List.mem_mapIdx.mp hloop
    have hplain := h.plain _ (List.getElem_mem hid)
    split
    · exact hplain
    · exact hplain
  · rw [hloops, sweep, List.getElem?_mapIdx] at hloop
    obtain ⟨loop', hloop', rfl⟩ := Option.map_eq_some_iff.mp hloop
    have hstage := h.starting id (hacceptor id hid) loop' hloop'
    split
    · exact hstage
    · exact hstage

theorem orderly_startLoop (h : s.Orderly) (hstarting : s.acceptor = .starting id) :
    (s.startLoop id).Orderly := by
  have hcustody : (s.startLoop id).custody = s.custody := by
    unfold custody startLoop
    congr 1
    funext other
    cases hloop : s.loops[other]? with
    | none => simp [List.getElem?_modify, hloop]
    | some loop =>
        by_cases hother : id = other
        · subst hother
          simp [hloop, Loop.held, h.starting id hstarting loop hloop, Stage.dataConnection]
        · simp [hloop, hother]
  refine ⟨hcustody ▸ h.sound, fun loop hloop => ?_,
    fun other hother => by simp [startLoop] at hother⟩
  obtain ⟨other, hother⟩ := List.mem_iff_getElem?.mp hloop
  rw [startLoop, List.getElem?_modify] at hother
  obtain ⟨loop', hloop', rfl⟩ := Option.map_eq_some_iff.mp hother
  have hplain := h.plain loop' (List.mem_of_getElem? hloop')
  split
  · trivial
  · exact hplain

/-- Every step of the service keeps its sockets in order. -/
theorem orderly_step (h : s.Orderly) (hstep : s.step e = some t) : t.Orderly := by
  cases e with
  | client id m =>
      obtain ⟨loop, hloop, hclient⟩ := Option.bind_eq_some_iff.mp hstep
      exact orderly_clientStep h hloop hclient
  | stopSweep | acceptorSweep =>
      obtain ⟨-, ht⟩ := Option.ite_none_right_eq_some.mp hstep
      cases ht
      exact orderly_sweep h (by simp [sweep]) rfl rfl rfl
  | accept sock =>
      obtain ⟨⟨-, hfresh⟩, ht⟩ := Option.ite_none_right_eq_some.mp hstep
      cases ht
      refine ⟨?_, fun loop hloop => ?_, fun id hid loop hloop => ?_⟩
      · rw [custody_acceptClient]
        refine h.sound.exchange ?_ ?_ (List.nodup_singleton sock)
        · simp [custody]
        · simpa [custody] using hfresh
      · rcases List.mem_append.mp hloop with hloop | hloop
        · exact h.plain loop hloop
        · obtain rfl := List.mem_singleton.mp hloop
          trivial
      · obtain rfl : s.loops.length = id := by simpa [acceptClient] using hid
        simp [acceptClient] at hloop
        rw [← hloop]
  | spawn =>
      simp only [step] at hstep
      split at hstep
      · next id hstarting =>
          cases hstep
          exact orderly_startLoop h hstarting
      · cases hstep
  | addUser | addAnonymousUser | clearUsers =>
      cases hstep
      exact ⟨h.sound, h.plain, h.starting⟩
  | acceptorCheck => 
      obtain ⟨-, ht⟩ := Option.ite_none_right_eq_some.mp hstep
      cases ht
      refine ⟨h.sound, h.plain, fun id hid => ?_⟩
      dsimp only at hid
      split at hid <;> cases hid
  | _ =>
      obtain ⟨-, ht⟩ := Option.ite_none_right_eq_some.mp hstep
      cases ht
      exact ⟨h.sound, h.plain, by first | exact h.starting | simp⟩

end Service

end MockServices.Ftp
