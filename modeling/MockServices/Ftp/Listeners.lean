import MockServices.Ftp.Stop

/-!
# The passive listeners

A ledger beside the service records which client's PASV has opened which
socket, and every `close` in its order. In every state a client has at most
one listener open, the one in its record, and nothing is closed twice. A
listener outlives its client loop when the record still has it as the loop
gets to `remove_client` and a sweep has taken the client off the list.
-/

namespace MockServices.Ftp

open Foundations

namespace Service

/-- What a step does outside the records of the clients. -/
def effects (s : Service) : ServiceEvent → List Effect
  | .client id m =>
      s.loops[id]?.elim [] fun loop =>
        match loop.stage, m with
        | .removing, .remove => if id ∈ s.clients then (closeClient loop.client).2 else []
        | _, _ => (loop.move s.server m).elim [] fun moved => moved.2.2
  | .stopSweep | .acceptorSweep =>
      s.clients.flatMap fun id => s.loops[id]?.elim [] fun loop => (closeClient loop.client).2
  | _ => []

/-- The sockets that a PASV command opens. -/
def listens (s : Service) : ServiceEvent → List (ClientId × RawSocket)
  | .client id m =>
      if (s.loops[id]?.bind fun loop => loop.nextCommand.bind lineVerb) = some .pasv then
        (openedBy (s.effects (.client id m))).map (Prod.mk id)
      else []
  | _ => []

end Service

/-- `listeners` are the sockets opened by PASV, with their clients; `closes`
are all calls of `close` on a client's socket. -/
structure Tracked where
  service : Service
  listeners : List (ClientId × RawSocket) := []
  closes : List RawSocket := []

namespace Tracked

def fresh (tmp : Text) : Tracked := { service := Service.fresh tmp }

def step (t : Tracked) (e : ServiceEvent) : Option Tracked :=
  (t.service.step e).map fun service =>
    ⟨service, t.listeners ++ t.service.listens e, t.closes ++ closedBy (t.service.effects e)⟩

/-- The record has a listener that PASV has opened and nobody has closed, or
none; and no other is open. -/
structure Listening (t : Tracked) : Prop where
  pasv : ∀ id loop, t.service.loops[id]? = some loop → (loop.client.pasv = true ↔
    ∃ listener, loop.client.dataSock = some listener ∧ (id, listener) ∈ t.listeners ∧
      listener ∉ t.closes)
  single : ∀ id listener other, (id, listener) ∈ t.listeners → (id, other) ∈ t.listeners →
    listener ∉ t.closes → other ∉ t.closes → listener = other
  once : t.closes.Nodup

/-- Whatever a client loop has opened with PASV has been closed once when it is done. -/
def ClosedAtEnd (t : Tracked) : Prop :=
  ∀ id loop, t.service.loops[id]? = some loop → loop.stage = .done →
    ∀ listener, (id, listener) ∈ t.listeners → t.closes.count listener = 1

/-- A loop gets to `remove_client` listed, or without a listener in its record. -/
def GivesBack (t : Tracked) : ServiceEvent → Prop
  | .client id .remove => ∀ loop, t.service.loops[id]? = some loop → loop.stage = .removing →
      id ∈ t.service.clients ∨ loop.client.dataSock = none
  | _ => True

end Tracked

/-! ## One loop -/

/-- How a step changes the listener in a record: a new one has been opened by
PASV, and one that is gone has been closed. -/
structure Relisted (client client' : Client) (listened : List RawSocket) (effects : List Effect) :
    Prop where
  pasv : (client.pasv = true ↔ client.dataSock ≠ none) →
    (client'.pasv = true ↔ client'.dataSock ≠ none)
  new : ∀ listener, client'.dataSock = some listener →
    client.dataSock = some listener ∨ listener ∈ listened
  gone : ∀ listener, client.dataSock = some listener ∨ listener ∈ listened →
    client'.dataSock = some listener ∨ listener ∈ closedBy effects

section Loops

variable {client client' : Client} {effects : List Effect} {listened : List RawSocket}

theorem relisted_same (hdataSock : client'.dataSock = client.dataSock)
    (hpasv : client'.pasv = client.pasv) : Relisted client client' [] effects where
  pasv h := by rwa [hdataSock, hpasv]
  new listener h := Or.inl (hdataSock ▸ h)
  gone listener h := Or.inl (by simpa [hdataSock] using h)

/-- The listener of the record is closed, like everything that was opened. -/
theorem relisted_closed (hdataSock : client'.dataSock = none) (hpasv : client'.pasv = false)
    (hclosed : ∀ listener, client.dataSock = some listener → listener ∈ closedBy effects)
    (hlistened : ∀ listener ∈ listened, listener ∈ closedBy effects) :
    Relisted client client' listened effects where
  pasv _ := by simp [hdataSock, hpasv]
  new listener h := by simp [hdataSock] at h
  gone listener h := Or.inr (h.elim (hclosed listener) (hlistened listener))

theorem mem_closedBy_closePasv {listener : RawSocket} (h : client.dataSock = some listener) :
    listener ∈ closedBy (closePasv client).2 := by
  simp [closePasv, h]

theorem relisted_withData (os : Os) (transfer : List Effect × Text) :
    Relisted client (withData os client transfer).1 [] (withData os client transfer).2 := by
  by_cases hlistening : client.pasv = true ∧ client.dataSock ≠ none
  · obtain ⟨hpasv, hne⟩ := hlistening
    obtain ⟨listener, hlistener⟩ := Option.ne_none_iff_exists'.mp hne
    rw [withData_listening os _ hpasv hlistener]
    refine relisted_closed rfl rfl (fun other hother => ?_) (List.forall_mem_nil _)
    have hclosed := mem_closedBy_closePasv hother
    cases os.accept with
    | none => simp [hclosed]
    | some dataSock => simp [hclosed]
  · rw [withData_idle os _ hlistening]
    exact relisted_same rfl rfl

theorem relisted_of_dispatched {os : Os} {server server' : Server} {line : Text}
    (h : Dispatched os server client line server' client' effects) :
    Relisted client client' (if lineVerb line = some .pasv then openedBy effects else [])
      effects := by
  cases h with
  | answered replies h | named user replies _ _ _ h | admitted user replies _ _ _ h
  | moved cwd replies _ _ _ h =>
      rw [(sockets_of_onlyReplies h).1, ite_self]
      exact relisted_same rfl rfl
  | entered user replies _ _ _ _ _ h =>
      rw [openedBy_append, (accountRoot_opened server.tmp user.root).1,
        (sockets_of_onlyReplies h).1, List.append_nil, ite_self]
      exact relisted_same rfl rfl
  | gaveUp opened replies hverb _ h =>
      rw [if_pos hverb]
      refine relisted_closed rfl rfl (fun listener hlistener => ?_) fun listener hlistener => ?_
      · simp [mem_closedBy_closePasv hlistener]
      · cases opened with
        | none => simp [closePasv, (sockets_of_onlyReplies h).1] at hlistener
        | some dataSock =>
            have heq : listener = dataSock := by
              simpa [closePasv, (sockets_of_onlyReplies h).1] using hlistener
            simp [heq]
  | listening dataSock replies hverb _ h =>
      have hopened : openedBy ((closePasv client).2 ++ .openSocket dataSock :: replies) =
          [dataSock] := by
        simp [closePasv, (sockets_of_onlyReplies h).1]
      rw [if_pos hverb, hopened]
      refine ⟨fun _ => by simp, fun listener hlistener => Or.inr ?_, fun listener hlistener => ?_⟩
      · simpa using hlistener.symm
      · rcases hlistener with hbefore | hnew
        · exact Or.inr (by simp [mem_closedBy_closePasv hbefore])
        · exact Or.inl (congrArg some (List.mem_singleton.mp hnew).symm)
  | transferred transfer path hverb =>
      have hother : lineVerb line ≠ some .pasv := fun hpasv => by
        rw [hpasv] at hverb
        cases hverb
      rw [if_neg hother]
      exact relisted_withData os _
  | called verb path call replies _ _ _ hcall h =>
      rw [(Verb.call_opened hcall replies).1, (sockets_of_onlyReplies h).1, ite_self]
      exact relisted_same rfl rfl
  | quit replies hverb h =>
      have hother : lineVerb line ≠ some .pasv := by simp [hverb]
      rw [if_neg hother]
      refine relisted_closed rfl rfl (fun listener hlistener => ?_) (List.forall_mem_nil _)
      simp [closeClient, closePasv, hlistener]

theorem client_transferOn (loop : Loop) (dataSock : RawSocket) (work : List Effect)
    (receives : Bool) (reply : Text) :
    (loop.transferOn dataSock work receives reply).1.client = loop.client := by
  unfold Loop.transferOn
  split <;> rfl

theorem relisted_moved {server server' : Server} {loop loop' : Loop} {m : Move}
    (h : Moved server loop m server' loop' effects) :
    Relisted loop.client loop'.client
      (if loop.nextCommand.bind lineVerb = some .pasv then openedBy effects else []) effects := by
  have helse : loop.stage ≠ .lines → loop.nextCommand.bind lineVerb ≠ some .pasv := by
    intro hstage hpasv
    obtain ⟨line, hline, -⟩ := Option.bind_eq_some_iff.mp hpasv
    exact hstage (nextCommand_stage hline)
  cases h with
  | read =>
      simp only [openedBy, List.filterMap_nil, ite_self]
      exact relisted_same rfl rfl
  | waited =>
      rw [openedBy_ftpSend, ite_self]
      exact relisted_same rfl rfl
  | dispatched os line partialLine hcommand =>
      rw [hcommand, Option.bind_some]
      exact relisted_of_dispatched (dispatched os server loop.client line)
  | refused os listener transfer resolvedPath hstage =>
      rw [if_neg (helse (by simp [hstage]))]
      refine relisted_closed rfl rfl (fun other hother => ?_) (List.forall_mem_nil _)
      simp [mem_closedBy_closePasv hother]
  | begun os listener dataSock transfer resolvedPath hstage =>
      rw [if_neg (helse (by simp [hstage])), client_transferOn]
      refine relisted_closed rfl rfl (fun other hother => ?_) (List.forall_mem_nil _)
      simp [mem_closedBy_closePasv hother]
  | carried dataSock work rest receives next reply hstage =>
      rw [if_neg (helse (by simp [hstage])), client_transferOn]
      exact relisted_same rfl rfl
  | left hstage =>
      rw [if_neg (helse (by simp [hstage]))]
      exact relisted_same rfl rfl

end Loops

/-! ## The ledger -/

namespace Tracked

variable {t u : Tracked} {s : Service} {id : ClientId} {loop : Loop} {m : Move} {e : ServiceEvent}

/-- What a run keeps true. -/
structure Accounted (t : Tracked) : Prop where
  orderly : t.service.Orderly
  listed : t.service.clients.Nodup ∧ ∀ id ∈ t.service.clients, id < t.service.loops.length
  once : t.closes.Nodup
  mem_closes : ∀ sock, sock ∈ t.closes ↔ sock ∈ t.service.closed
  pasv : ∀ (id : ClientId) (loop : Loop), t.service.loops[id]? = some loop →
    (loop.client.pasv = true ↔ loop.client.dataSock ≠ none)
  recorded : ∀ (id : ClientId) (loop : Loop) listener, t.service.loops[id]? = some loop →
    loop.client.dataSock = some listener → (id, listener) ∈ t.listeners
  listener : ∀ id listener, (id, listener) ∈ t.listeners → listener ∈ t.closes ∨
    ∃ loop, t.service.loops[id]? = some loop ∧ loop.client.dataSock = some listener

theorem effects_remove (hloop : t.service.loops[id]? = some loop)
    (hstage : loop.stage = .removing) :
    t.service.effects (.client id .remove) =
      if id ∈ t.service.clients then (closeClient loop.client).2 else [] := by
  simp only [Service.effects, hloop, Option.elim_some, hstage]

theorem effects_move {server : Server} {next : Loop} {effects : List Effect}
    (hloop : t.service.loops[id]? = some loop)
    (hmove : loop.move t.service.server m = some (server, next, effects)) :
    t.service.effects (.client id m) = effects := by
  simp only [Service.effects, hloop, Option.elim_some]
  split
  · next hstage => simp [Loop.move, hstage] at hmove
  · rw [hmove, Option.elim_some]

/-- The step of a client loop, with what it has done. -/
theorem clientStep_effects (hloop : t.service.loops[id]? = some loop)
    (h : t.service.clientStep id loop m = some s) :
    (loop.stage = .removing ∧ m = .remove ∧ s = t.service.removeClient id loop ∧
      t.service.effects (.client id m) =
        if id ∈ t.service.clients then (closeClient loop.client).2 else []) ∨
      ∃ server next, Moved t.service.server loop m server next (t.service.effects (.client id m)) ∧
        (openedBy (t.service.effects (.client id m))).Nodup ∧
        (∀ sock ∈ openedBy (t.service.effects (.client id m)), t.service.owner sock = none) ∧
        s = ({ t.service with server }.settle id (t.service.effects (.client id m))).setLoop id
          next := by
  rcases Service.clientStep_cases h with ⟨hstage, rfl, rfl⟩ |
    ⟨server, next, effects, hmove, hdistinct, hopened, rfl⟩
  · exact Or.inl ⟨hstage, rfl, rfl, effects_remove hloop hstage⟩
  · rw [effects_move hloop hmove]
    refine Or.inr ⟨server, next, moved hmove, hdistinct, fun sock hsock => ?_, rfl⟩
    exact Service.owner_of_grants (hopened sock hsock)

/-- What a sweep closes. -/
theorem closedBy_sweep (s : Service) :
    closedBy (s.clients.flatMap fun id =>
        s.loops[id]?.elim [] fun loop => (closeClient loop.client).2) =
      s.clients.flatMap fun id =>
        s.loops[id]?.elim [] fun loop => closedBy (closeClient loop.client).2 := by
  rw [closedBy, List.filterMap_flatMap]
  refine List.flatMap_congr fun id _ => ?_
  cases s.loops[id]? <;> rfl

theorem sublist_sweep (s : Service) (id : ClientId) :
    (s.loops[id]?.elim [] fun loop => closedBy (closeClient loop.client).2).Sublist
      (s.custody.holds id) := by
  cases hloop : s.loops[id]? with
  | none => exact List.nil_sublist _
  | some loop =>
      rw [Service.custody_holds hloop, Option.elim_some, Service.closedBy_closeClient, Loop.held]
      exact List.sublist_append_left _ _

/-- What a step closes has not been closed before. -/
theorem closedBy_effects (h : t.Accounted) (hstep : t.service.step e = some s) :
    (closedBy (t.service.effects e)).Nodup ∧
      (∀ sock ∈ closedBy (t.service.effects e), sock ∉ t.service.closed) ∧
      s.closed = t.service.closed ∪ (closedBy (t.service.effects e)).toFinset := by
  have hnone : ∀ closed : Finset RawSocket, ([] : List RawSocket).Nodup ∧
      (∀ sock ∈ ([] : List RawSocket), sock ∉ closed) ∧
        closed = closed ∪ ([] : List RawSocket).toFinset :=
    fun closed => ⟨List.nodup_nil, List.forall_mem_nil _, (Finset.union_empty closed).symm⟩
  cases e with
  | client id m =>
      obtain ⟨loop, hloop, hclient⟩ := Option.bind_eq_some_iff.mp hstep
      have hmem := List.mem_of_getElem? hloop
      have honce' := h.orderly.sound.once id
      rw [Service.custody_holds hloop] at honce'
      rcases clientStep_effects hloop hclient with
        ⟨hstage, rfl, rfl, heffects⟩ | ⟨server, next, hmoved, honce, hfresh, rfl⟩
      · rw [heffects, Service.removeClient]
        split
        · have hheld : closedBy (closeClient loop.client).2 = loop.held := by
            simp [Service.closedBy_closeClient, Loop.held, hstage, Stage.dataConnection]
          refine ⟨hheld ▸ honce', fun sock hsock => ?_, rfl⟩
          exact Service.held_open h.orderly hmem (hheld ▸ hsock)
        · exact hnone _
      · have hbalance := moved_held hmoved (h.orderly.plain loop hmem)
        rw [← Service.custody_holds hloop] at hbalance
        obtain ⟨hnodup, hnew⟩ := h.orderly.sound.released_once hbalance hfresh honce
        exact ⟨hnodup, hnew, rfl⟩
  | stopSweep | acceptorSweep =>
      obtain ⟨-, hs⟩ := Option.ite_none_right_eq_some.mp hstep
      cases hs
      simp only [Service.effects, closedBy_sweep]
      refine ⟨h.orderly.sound.nodup_flatMap h.listed.1 (sublist_sweep t.service),
        fun sock hsock => ?_, rfl⟩
      obtain ⟨id, -, hid⟩ := List.mem_flatMap.mp hsock
      exact h.orderly.sound.live id sock ((sublist_sweep t.service id).subset hid)
  | spawn =>
      simp only [Service.step] at hstep
      split at hstep
      · cases hstep
        exact hnone _
      · cases hstep
  | addUser | addAnonymousUser | clearUsers =>
      cases hstep
      exact hnone _
  | _ =>
      obtain ⟨-, hs⟩ := Option.ite_none_right_eq_some.mp hstep
      cases hs
      exact hnone _

/-- What a step does to the record of one client: `listened` are the sockets that
the client's PASV opens in it. -/
def Follows (t : Tracked) (e : ServiceEvent) (id : ClientId) (client client' : Client) : Prop :=
  ∃ listened, (∀ sock, (id, sock) ∈ t.service.listens e ↔ sock ∈ listened) ∧
    Relisted client client' listened (t.service.effects e)

theorem follows_same {client client' : Client} (hlistens : ∀ sock, (id, sock) ∉ t.service.listens e)
    (hdataSock : client'.dataSock = client.dataSock) (hpasv : client'.pasv = client.pasv) :
    t.Follows e id client client' :=
  ⟨[], fun sock => by simp [hlistens], relisted_same hdataSock hpasv⟩

theorem listens_client_of_ne {other : ClientId} (h : other ≠ id) (sock : RawSocket) :
    (id, sock) ∉ t.service.listens (.client other m) := by
  intro hmem
  simp only [Service.listens] at hmem
  split at hmem
  · obtain ⟨opened, -, heq⟩ := List.mem_map.mp hmem
    exact h (Prod.mk.inj heq).1
  · cases hmem

theorem follows_clientStep (hloop : t.service.loops[id]? = some loop)
    (h : t.service.clientStep id loop m = some s) :
    ∃ next, s.loops = t.service.loops.set id next ∧
      t.Follows (.client id m) id loop.client next.client := by
  rcases clientStep_effects hloop h with
    ⟨hstage, rfl, rfl, heffects⟩ | ⟨server, next, hmoved, -, -, rfl⟩
  · have hlistens : ∀ sock, (id, sock) ∉ t.service.listens (.client id .remove) := by
      intro sock hsock
      simp [Service.listens, hloop, Loop.nextCommand, hstage] at hsock
    unfold Service.removeClient
    split
    · next hlisted =>
        refine ⟨_, rfl, [], fun sock => by simp [hlistens], ?_⟩
        refine relisted_closed rfl rfl (fun listener hlistener => ?_) (List.forall_mem_nil _)
        rw [heffects, if_pos hlisted, Service.closedBy_closeClient]
        simp [Client.sockets, hlistener]
    · exact ⟨_, rfl, follows_same hlistens rfl rfl⟩
  · refine ⟨next, rfl, _, fun sock => ?_, relisted_moved hmoved⟩
    simp only [Service.listens, hloop, Option.bind_some]
    split
    · simp
    · simp

theorem follows_sweep (hlistens : t.service.listens e = [])
    (heffects : t.service.effects e = t.service.clients.flatMap fun id =>
      t.service.loops[id]?.elim [] fun loop => (closeClient loop.client).2) (id : ClientId) :
    (∀ loop : Loop, t.service.loops[id]? = some loop →
      ∃ next : Loop, t.service.sweep.loops[id]? = some next ∧
        t.Follows e id loop.client next.client) ∧
    (t.service.loops[id]? = none → ∀ next : Loop, t.service.sweep.loops[id]? = some next →
      next.client.dataSock = none ∧ next.client.pasv = false) := by
  simp only [Service.sweep, List.getElem?_mapIdx]
  refine ⟨fun loop hloop => ?_, fun hnone next hnext => by simp [hnone] at hnext⟩
  rw [hloop, Option.map_some]
  refine ⟨_, rfl, ?_⟩
  split
  · next hlisted =>
      refine ⟨[], fun sock => by simp [hlistens], ?_⟩
      refine relisted_closed rfl rfl (fun listener hlistener => ?_) (List.forall_mem_nil _)
      rw [heffects, closedBy_sweep]
      refine List.mem_flatMap.mpr ⟨id, hlisted, ?_⟩
      rw [hloop, Option.elim_some, Service.closedBy_closeClient]
      simp [Client.sockets, hlistener]
  · exact follows_same (fun sock => by simp [hlistens]) rfl rfl

/-- Every step follows the record of every client. -/
theorem follows_step (hstep : t.service.step e = some s) (id : ClientId) :
    (∀ loop : Loop, t.service.loops[id]? = some loop →
      ∃ next : Loop, s.loops[id]? = some next ∧ t.Follows e id loop.client next.client) ∧
    (t.service.loops[id]? = none → ∀ next : Loop, s.loops[id]? = some next →
      next.client.dataSock = none ∧ next.client.pasv = false) := by
  have hkept : (∀ sock, (id, sock) ∉ t.service.listens e) →
      (∀ loop : Loop, t.service.loops[id]? = some loop →
        ∃ next : Loop, t.service.loops[id]? = some next ∧ t.Follows e id loop.client next.client) ∧
      (t.service.loops[id]? = none → ∀ next : Loop, t.service.loops[id]? = some next →
        next.client.dataSock = none ∧ next.client.pasv = false) := fun hlistens =>
    ⟨fun loop hloop => ⟨loop, hloop, follows_same hlistens rfl rfl⟩,
      fun hnone next hnext => by simp [hnone] at hnext⟩
  cases e with
  | client other m =>
      obtain ⟨moving, hmoving, hclient⟩ := Option.bind_eq_some_iff.mp hstep
      obtain ⟨next, hloops, hfollows⟩ := follows_clientStep hmoving hclient
      by_cases hother : other = id
      · subst hother
        have hnext : s.loops[other]? = some next := by
          rw [hloops, List.getElem?_set_self (List.getElem?_eq_some_iff.mp hmoving).1]
        refine ⟨fun loop hloop => ⟨next, hnext, ?_⟩, fun hnone => by simp [hnone] at hmoving⟩
        rw [hmoving] at hloop
        cases hloop
        exact hfollows
      · rw [hloops, List.getElem?_set_ne hother]
        exact hkept (listens_client_of_ne hother)
  | stopSweep | acceptorSweep =>
      obtain ⟨-, hs⟩ := Option.ite_none_right_eq_some.mp hstep
      cases hs
      exact follows_sweep rfl rfl id
  | accept sock =>
      obtain ⟨-, hs⟩ := Option.ite_none_right_eq_some.mp hstep
      cases hs
      rcases Nat.lt_or_ge id t.service.loops.length with hlt | hge
      · rw [Service.acceptClient, List.getElem?_append_left hlt]
        exact hkept fun sock hsock => by cases hsock
      · refine ⟨fun loop hloop => ?_, fun _ next hnext => ?_⟩
        · simp [List.getElem?_eq_none hge] at hloop
        · rw [Service.acceptClient, List.getElem?_append_right hge] at hnext
          obtain rfl := List.mem_singleton.mp (List.mem_of_getElem? hnext)
          exact ⟨rfl, rfl⟩
  | spawn =>
      simp only [Service.step] at hstep
      split at hstep
      · cases hstep
        simp only [Service.startLoop, List.getElem?_modify]
        refine ⟨fun loop hloop => ?_, fun hnone next hnext => by simp [hnone] at hnext⟩
        rw [hloop]
        refine ⟨_, rfl, ?_⟩
        split
        · exact follows_same (fun sock hsock => by cases hsock) rfl rfl
        · exact follows_same (fun sock hsock => by cases hsock) rfl rfl
      · cases hstep
  | addUser | addAnonymousUser | clearUsers =>
      cases hstep
      exact hkept fun sock hsock => by cases hsock
  | _ =>
      obtain ⟨-, hs⟩ := Option.ite_none_right_eq_some.mp hstep
      cases hs
      exact hkept fun sock hsock => by cases hsock

/-- A client is listed once, and has a loop. -/
theorem listed_step (h : t.Accounted) (hstep : t.service.step e = some s) :
    s.clients.Nodup ∧ ∀ id ∈ s.clients, id < s.loops.length := by
  cases e with
  | client id m =>
      obtain ⟨loop, hloop, hclient⟩ := Option.bind_eq_some_iff.mp hstep
      obtain ⟨next, hloops, -⟩ := follows_clientStep hloop hclient
      rw [hloops, List.length_set]
      rcases clientStep_effects hloop hclient with ⟨-, -, rfl, -⟩ | ⟨server, next, -, -, -, rfl⟩
      · unfold Service.removeClient
        split
        · refine ⟨h.listed.1.erase id, fun other hother => ?_⟩
          exact h.listed.2 other (List.mem_of_mem_erase hother)
        · exact h.listed
      · exact h.listed
  | stopSweep | acceptorSweep =>
      obtain ⟨-, hs⟩ := Option.ite_none_right_eq_some.mp hstep
      cases hs
      exact ⟨List.nodup_nil, List.forall_mem_nil _⟩
  | accept sock =>
      obtain ⟨-, hs⟩ := Option.ite_none_right_eq_some.mp hstep
      cases hs
      simp only [Service.acceptClient, List.length_append, List.length_singleton]
      refine ⟨?_, fun id hid => ?_⟩
      · refine List.nodup_append.mpr
          ⟨h.listed.1, List.nodup_singleton _, fun id hid other hother => ?_⟩
        rw [List.mem_singleton.mp hother]
        exact Nat.ne_of_lt (h.listed.2 id hid)
      · rcases List.mem_append.mp hid with hid | hid
        · exact Nat.lt_succ_of_lt (h.listed.2 id hid)
        · exact List.mem_singleton.mp hid ▸ Nat.lt_succ_self _
  | spawn =>
      simp only [Service.step] at hstep
      split at hstep
      · cases hstep
        simpa [Service.startLoop] using h.listed
      · cases hstep
  | addUser | addAnonymousUser | clearUsers =>
      cases hstep
      exact h.listed
  | _ =>
      obtain ⟨-, hs⟩ := Option.ite_none_right_eq_some.mp hstep
      cases hs
      exact h.listed

/-- A client that opens a listener is between two lines. -/
theorem loop_of_listens {sock : RawSocket} (h : (id, sock) ∈ t.service.listens e) :
    ∃ loop : Loop, t.service.loops[id]? = some loop ∧ loop.stage = .lines := by
  cases e with
  | client other m =>
      by_cases hother : other = id
      · subst hother
        simp only [Service.listens] at h
        split at h
        · next hpasv =>
            obtain ⟨loop, hloop, hcommand⟩ := Option.bind_eq_some_iff.mp hpasv
            obtain ⟨line, hline, -⟩ := Option.bind_eq_some_iff.mp hcommand
            exact ⟨loop, hloop, nextCommand_stage hline⟩
        · cases h
      · exact absurd h (listens_client_of_ne hother sock)
  | _ => cases h

theorem accounted_step (h : t.Accounted) (hstep : t.step e = some u) : u.Accounted := by
  obtain ⟨s, hs, rfl⟩ := Option.map_eq_some_iff.mp hstep
  obtain ⟨hnodup, hnew, hclosed⟩ := closedBy_effects h hs
  have hmem : ∀ sock, sock ∈ t.closes ++ closedBy (t.service.effects e) ↔ sock ∈ s.closed := by
    intro sock
    rw [hclosed, List.mem_append, Finset.mem_union, List.mem_toFinset, h.mem_closes]
  refine ⟨Service.orderly_step h.orderly hs, listed_step h hs, ?_, hmem, ?_, ?_, ?_⟩
  · refine List.nodup_append.mpr ⟨h.once, hnodup, fun sock hsock other hother => ?_⟩
    rintro rfl
    exact hnew sock hother ((h.mem_closes sock).mp hsock)
  · intro id next hnext
    obtain ⟨hkept, hstarted⟩ := follows_step hs id
    cases hloop : t.service.loops[id]? with
    | none => simp [hstarted hloop next hnext]
    | some loop =>
        obtain ⟨next', hnext', listened, -, hfollows⟩ := hkept loop hloop
        rw [hnext] at hnext'
        cases hnext'
        exact hfollows.pasv (h.pasv id loop hloop)
  · intro id next listener hnext hlistener
    obtain ⟨hkept, hstarted⟩ := follows_step hs id
    cases hloop : t.service.loops[id]? with
    | none => simp [hstarted hloop next hnext] at hlistener
    | some loop =>
        obtain ⟨next', hnext', listened, hlistened, hfollows⟩ := hkept loop hloop
        rw [hnext] at hnext'
        cases hnext'
        refine List.mem_append.mpr ((hfollows.new listener hlistener).imp (fun hbefore => ?_)
          fun hopened => (hlistened listener).mpr hopened)
        exact h.recorded id loop listener hloop hbefore
  · intro id listener hlistener
    have hkept : ∀ loop : Loop, t.service.loops[id]? = some loop →
        loop.client.dataSock = some listener ∨ (id, listener) ∈ t.service.listens e →
        listener ∈ t.closes ++ closedBy (t.service.effects e) ∨
          ∃ next : Loop, s.loops[id]? = some next ∧ next.client.dataSock = some listener := by
      intro loop hloop hopen
      obtain ⟨next, hnext, listened, hlistened, hfollows⟩ := (follows_step hs id).1 loop hloop
      rcases hfollows.gone listener (hopen.imp_right (hlistened listener).mp) with hstill | hgone
      · exact Or.inr ⟨next, hnext, hstill⟩
      · exact Or.inl (List.mem_append_right _ hgone)
    rcases List.mem_append.mp hlistener with hbefore | hopened
    · rcases h.listener id listener hbefore with hgone | ⟨loop, hloop, hrecord⟩
      · exact Or.inl (List.mem_append_left _ hgone)
      · exact hkept loop hloop (Or.inl hrecord)
    · obtain ⟨loop, hloop, -⟩ := loop_of_listens hopened
      exact hkept loop hloop (Or.inr hopened)

theorem accounted_fresh (tmp : Text) : (fresh tmp).Accounted where
  orderly := (releasing_fresh tmp).orderly
  listed := ⟨List.nodup_nil, List.forall_mem_nil _⟩
  once := List.nodup_nil
  mem_closes sock := by simp [fresh, Service.fresh]
  pasv id loop h := by simp [fresh, Service.fresh] at h
  recorded id loop listener h := by simp [fresh, Service.fresh] at h
  listener id listener h := by cases h

/-! ## Which listeners are open -/

theorem not_mem_closes_of_recorded (h : t.Accounted) {listener : RawSocket}
    (hloop : t.service.loops[id]? = some loop) (hlistener : loop.client.dataSock = some listener) :
    listener ∉ t.closes := by
  rw [h.mem_closes]
  refine Service.held_open h.orderly (List.mem_of_getElem? hloop) ?_
  simp [Loop.held, Client.sockets, hlistener]

theorem listening_of_accounted (h : t.Accounted) : t.Listening where
  pasv id loop hloop := by
    rw [h.pasv id loop hloop, Option.ne_none_iff_exists']
    constructor
    · rintro ⟨listener, hlistener⟩
      exact ⟨listener, hlistener, h.recorded id loop listener hloop hlistener,
        not_mem_closes_of_recorded h hloop hlistener⟩
    · rintro ⟨listener, hlistener, -⟩
      exact ⟨listener, hlistener⟩
  single id listener other hlistener hother hopen hopen' := by
    obtain ⟨loop, hloop, hrecord⟩ := (h.listener id listener hlistener).resolve_left hopen
    obtain ⟨loop', hloop', hrecord'⟩ := (h.listener id other hother).resolve_left hopen'
    rw [hloop] at hloop'
    cases hloop'
    exact Option.some.inj (hrecord.symm.trans hrecord')
  once := h.once

/-- A loop that is done has given its listeners back when its record has none. -/
theorem closedAtEnd_iff (h : t.Accounted) : t.ClosedAtEnd ↔
    ∀ (id : ClientId) (loop : Loop), t.service.loops[id]? = some loop → loop.stage = .done →
      loop.client.dataSock = none := by
  constructor
  · intro hclosed id loop hloop hdone
    by_contra hne
    obtain ⟨listener, hlistener⟩ := Option.ne_none_iff_exists'.mp hne
    have hrecorded := h.recorded id loop listener hloop hlistener
    have hcount := hclosed id loop hloop hdone listener hrecorded
    have hmem : listener ∈ t.closes := List.count_pos_iff.mp (hcount ▸ Nat.one_pos)
    exact not_mem_closes_of_recorded h hloop hlistener hmem
  · intro hnone id loop hloop hdone listener hlistener
    refine List.count_eq_one_of_mem h.once ?_
    refine (h.listener id listener hlistener).resolve_right ?_
    rintro ⟨loop', hloop', hrecord⟩
    rw [hloop] at hloop'
    cases hloop'
    simp [hnone id loop hloop hdone] at hrecord

/-! ## The end of a client loop -/

theorem moved_not_done {server server' : Server} {loop loop' : Loop} {effects : List Effect}
    (h : Moved server loop m server' loop' effects) : loop'.stage ≠ .done := by
  cases h with
  | read stage partialLine hm hstage hnext =>
      rintro rfl
      simp [Stage.reading] at hnext
  | dispatched os line partialLine hcommand => simp [nextCommand_stage hcommand]
  | begun | carried =>
      unfold Loop.transferOn
      split <;> simp
  | waited | refused | left => simp

/-- A loop is done since before, or its step was `remove_client`. -/
theorem done_step (hstep : t.service.step e = some s) {next : Loop}
    (hnext : s.loops[id]? = some next) (hdone : next.stage = .done) :
    (∃ loop : Loop, t.service.loops[id]? = some loop ∧ loop.stage = .done) ∨
      ∃ loop : Loop, t.service.loops[id]? = some loop ∧ e = .client id .remove ∧
        loop.stage = .removing ∧ s = t.service.removeClient id loop := by
  cases e with
  | client other m =>
      obtain ⟨loop, hloop, hclient⟩ := Option.bind_eq_some_iff.mp hstep
      obtain ⟨moved, hloops, -⟩ := follows_clientStep hloop hclient
      by_cases hother : other = id
      · subst hother
        rcases clientStep_effects hloop hclient with
          ⟨hstage, rfl, hs, -⟩ | ⟨server, next', hmoved, -, -, rfl⟩
        · exact Or.inr ⟨loop, hloop, rfl, hstage, hs⟩
        · have hlt := (List.getElem?_eq_some_iff.mp hloop).1
          have heq : next' = next := by
            simpa [Service.setLoop, Service.settle, hlt] using hnext
          exact absurd hdone (heq ▸ moved_not_done hmoved)
      · rw [hloops, List.getElem?_set_ne hother] at hnext
        exact Or.inl ⟨next, hnext, hdone⟩
  | stopSweep | acceptorSweep =>
      obtain ⟨-, hs⟩ := Option.ite_none_right_eq_some.mp hstep
      cases hs
      simp only [Service.sweep, List.getElem?_mapIdx] at hnext
      obtain ⟨loop, hloop, rfl⟩ := Option.map_eq_some_iff.mp hnext
      refine Or.inl ⟨loop, hloop, ?_⟩
      split at hdone
      · exact hdone
      · exact hdone
  | accept sock =>
      obtain ⟨-, hs⟩ := Option.ite_none_right_eq_some.mp hstep
      cases hs
      rcases Nat.lt_or_ge id t.service.loops.length with hlt | hge
      · rw [Service.acceptClient, List.getElem?_append_left hlt] at hnext
        exact Or.inl ⟨next, hnext, hdone⟩
      · rw [Service.acceptClient, List.getElem?_append_right hge] at hnext
        obtain rfl := List.mem_singleton.mp (List.mem_of_getElem? hnext)
        cases hdone
  | spawn =>
      simp only [Service.step] at hstep
      split at hstep
      · cases hstep
        rw [Service.startLoop, List.getElem?_modify] at hnext
        obtain ⟨loop, hloop, rfl⟩ := Option.map_eq_some_iff.mp hnext
        refine Or.inl ⟨loop, hloop, ?_⟩
        split at hdone
        · cases hdone
        · exact hdone
      · cases hstep
  | addUser | addAnonymousUser | clearUsers =>
      cases hstep
      exact Or.inl ⟨next, hnext, hdone⟩
  | _ =>
      obtain ⟨-, hs⟩ := Option.ite_none_right_eq_some.mp hstep
      cases hs
      exact Or.inl ⟨next, hnext, hdone⟩

theorem closedAtEnd_step (h : t.Accounted) (hclosed : t.ClosedAtEnd) (hback : t.GivesBack e)
    (hstep : t.step e = some u) : u.ClosedAtEnd := by
  rw [closedAtEnd_iff h] at hclosed
  rw [closedAtEnd_iff (accounted_step h hstep)]
  obtain ⟨s, hs, rfl⟩ := Option.map_eq_some_iff.mp hstep
  intro id next hnext hdone
  rcases done_step hs hnext hdone with ⟨loop, hloop, hbefore⟩ | ⟨loop, hloop, rfl, hstage, rfl⟩
  · obtain ⟨next', hnext', listened, hlistened, hfollows⟩ := (follows_step hs id).1 loop hloop
    rw [hnext] at hnext'
    cases hnext'
    by_contra hne
    obtain ⟨listener, hlistener⟩ := Option.ne_none_iff_exists'.mp hne
    rcases hfollows.new listener hlistener with hrecord | hopened
    · simp [hclosed id loop hloop hbefore] at hrecord
    · obtain ⟨loop', hloop', hlines⟩ := loop_of_listens ((hlistened listener).mpr hopened)
      rw [hloop] at hloop'
      cases hloop'
      rw [hbefore] at hlines
      cases hlines
  · have hlt := (List.getElem?_eq_some_iff.mp hloop).1
    unfold Service.removeClient at hnext
    split at hnext
    · have heq : { loop with client := (closeClient loop.client).1, stage := .done } = next := by
        simpa [Service.setLoop, Service.settle, hlt] using hnext
      rw [← heq]
      rfl
    · next hlisted =>
        have heq : { loop with stage := .done } = next := by
          simpa [Service.setLoop, hlt] using hnext
        rw [← heq]
        exact (hback loop hloop hstage).resolve_left hlisted

/-- A client off the list that still has a listener leaves it open. -/
theorem not_closedAtEnd_step (h : t.Accounted) (hback : ¬ t.GivesBack e) :
    ∃ u, t.step e = some u ∧ ¬ u.ClosedAtEnd := by
  unfold GivesBack at hback
  split at hback
  · next id =>
      push Not at hback
      obtain ⟨loop, hloop, hstage, hlisted, hrecord⟩ := hback
      have hs : t.service.step (.client id .remove) =
          some (t.service.setLoop id { loop with stage := .done }) := by
        simp [Service.step, hloop, Service.clientStep, hstage, Service.removeClient, hlisted]
      have hstep : t.step (.client id .remove) = some
          ⟨t.service.setLoop id { loop with stage := .done },
            t.listeners ++ t.service.listens (.client id .remove),
            t.closes ++ closedBy (t.service.effects (.client id .remove))⟩ := by
        rw [step, hs, Option.map_some]
      refine ⟨_, hstep, fun hclosed => hrecord ?_⟩
      refine (closedAtEnd_iff (accounted_step h hstep)).mp hclosed id
        { loop with stage := .done } ?_ rfl
      exact List.getElem?_set_self (List.getElem?_eq_some_iff.mp hloop).1
  · exact absurd trivial hback

end Tracked

/-- The passive listeners. In every interleaving of the client loops, the
accept loop and `stop()`, a client's record has a listener exactly when
`pasv` says so, it is the only one that the client has open, and nothing is
closed twice. Every listener is closed once by the time its client loop is
done exactly when no loop gets to `remove_client` off the list and with a
listener in its record. -/
theorem passive_listeners_iff (tmp : Text) (events : List ServiceEvent) :
    (∀ t, run Tracked.step (Tracked.fresh tmp) events = some t → t.Listening) ∧
      (Always Tracked.step Tracked.ClosedAtEnd (Tracked.fresh tmp) events ↔
        Along Tracked.step Tracked.GivesBack (Tracked.fresh tmp) events) := by
  have hfresh := Tracked.accounted_fresh tmp
  constructor
  · intro t hrun
    exact Tracked.listening_of_accounted
      (run_invariant (fun _ _ _ h hstep => Tracked.accounted_step h hstep) hfresh hrun)
  · refine always_iff_along (I := fun t : Tracked => t.Accounted ∧ t.ClosedAtEnd) (fun t h => h.2)
      (fun t e u h hback hstep => ?_) (fun t e h hback => ?_) ⟨hfresh, ?_⟩ events
    · exact ⟨Tracked.accounted_step h.1 hstep, Tracked.closedAtEnd_step h.1 h.2 hback hstep⟩
    · exact Tracked.not_closedAtEnd_step h.1 hback
    · intro id loop hloop
      simp [Tracked.fresh, Service.fresh] at hloop

/-- A client has sent PASV, and `stop()` sweeps the clients before the line is
dispatched. -/
theorem listener_left_open :
    ¬ ∀ tmp events, Always Tracked.step Tracked.ClosedAtEnd (Tracked.fresh tmp) events := by
  intro h
  let events : List ServiceEvent :=
    [.addAnonymousUser "/" FtpPermission.all, .start, .acceptorCheck, .accept 4, .spawn,
      .client 0 .enter, .client 0 (.received (some "USER anonymous\nPASV\n")),
      .client 0 (.line grantingOs), .stopFlag, .stopSweep, .client 0 (.line grantingOs),
      .client 0 (.line grantingOs), .client 0 .enter, .client 0 .leave, .client 0 .remove]
  have hrun : ((run Tracked.step (Tracked.fresh "/tmp/ms") events).any fun t =>
      decide (t.service.loops.map Loop.stage = [.done] ∧ t.listeners = [(0, 7)] ∧
        t.closes = [4])) = true := by
    decide +kernel
  obtain ⟨final, hfinal, hlast⟩ := (Option.any_eq_true _ _).mp hrun
  obtain ⟨hdone, hlisteners, hcloses⟩ := of_decide_eq_true hlast
  obtain ⟨loop, hloops, hstage⟩ := List.map_eq_singleton_iff.mp hdone
  have hclosed := (h _ events).of_run hfinal 0 loop (by simp [hloops]) hstage 7
    (by simp [hlisteners])
  simp [hcloses] at hclosed

end MockServices.Ftp
