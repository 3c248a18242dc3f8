import MockServices.Foundations.Presence
import MockServices.Ftp.Sockets

/-!
# Who is logged in to the FTP server

A ledger beside the service records under which account name each
connection is logged in, from the command that logs it in until its loop
ends. The set `conn_users_` has one entry for a name however many
connections use it, and what a loop erases when it ends is whatever
`client->user` says then.
-/

namespace MockServices.Ftp

open Foundations

/-- The name of the account that a command line logs in to. -/
def loginName (server : Server) (client : Client) (line : Text) : Option Text :=
  match lineVerb line with
  | some .user => ((findUser server.users (lineArg line)).filter (·.anon)).map User.name
  | some .pass =>
      if client.auth = true ∨ client.user = [] then none
      else ((findAccount server.users client.user).filter (·.pass = lineArg line)).map User.name
  | _ => none

def Server.list (server : Server) (name : Option Text) : Server :=
  { server with connUsers := name.elim server.connUsers (insert · server.connUsers) }

section Login

variable (os : Os) {server : Server} {client : Client} {line : Text}

theorem dispatch_user (h : lineVerb line = some .user) :
    (dispatch os server client line).1 = server.list (loginName server client line) ∧
      (dispatch os server client line).2.1.auth =
        (client.auth || (loginName server client line).isSome) ∧
      openedBy (dispatch os server client line).2.2 = [] := by
  rw [dispatch_eq, h]
  simp only [loginName, h, command, userCmd]
  cases findUser server.users (lineArg line) with
  | none => simp [Server.list, openedBy_ftpSend]
  | some user => by_cases hanon : user.anon = true <;> 
      simp [hanon, Option.filter, Server.list, openedBy_ftpSend]

theorem dispatch_pass (h : lineVerb line = some .pass) :
    (dispatch os server client line).1 = server.list (loginName server client line) ∧
      (dispatch os server client line).2.1.auth =
        (client.auth || (loginName server client line).isSome) ∧
      openedBy (dispatch os server client line).2.2 = [] := by
  rw [dispatch_eq, h]
  simp only [loginName, h, command, passCmd]
  by_cases hauth : client.auth = true
  · simp [hauth, Server.list, openedBy_ftpSend]
  · by_cases huser : client.user = []
    · simp [hauth, huser, Server.list, openedBy_ftpSend]
    · cases findAccount server.users client.user with
      | none => simp [hauth, huser, Server.list, openedBy_ftpSend]
      | some user =>
          by_cases hpass : user.pass = lineArg line <;>
            simp [hauth, huser, hpass, Option.filter, Server.list, openedBy_ftpSend,
              openedBy_append, accountRoot_opened]

/-- What a command line does to the log-ins: it lists the name of the
account it logs in to, and nobody is logged out. -/
theorem dispatch_login :
    (dispatch os server client line).1 = server.list (loginName server client line) ∧
      (dispatch os server client line).2.1.auth =
        (client.auth || (loginName server client line).isSome) := by
  by_cases huser : lineVerb line = some .user
  · exact ⟨(dispatch_user os huser).1, (dispatch_user os huser).2.1⟩
  · by_cases hpass : lineVerb line = some .pass
    · exact ⟨(dispatch_pass os hpass).1, (dispatch_pass os hpass).2.1⟩
    · have hnone : loginName server client line = none := by
        unfold loginName
        split <;> first | contradiction | rfl
      obtain ⟨hserver, hidentity⟩ := command_other os server client (lineArg line) huser hpass
      rw [dispatch_eq, hserver, hnone]
      refine ⟨rfl, ?_⟩
      simpa [Client.identity] using congrArg (fun identity => identity.2.1) hidentity

theorem loginName_verb {name : Text} (h : loginName server client line = some name) :
    lineVerb line = some .user ∨ lineVerb line = some .pass := by
  unfold loginName at h
  split at h
  · next hverb => exact Or.inl hverb
  · next hverb => exact Or.inr hverb
  · cases h

theorem openedBy_login {name : Text} (h : loginName server client line = some name) :
    openedBy (dispatch os server client line).2.2 = [] := by
  rcases loginName_verb h with hverb | hverb
  · exact (dispatch_user os hverb).2.2
  · exact (dispatch_pass os hverb).2.2

/-- A log-in never waits for a data connection. -/
theorem waitsFor_login {name : Text} (h : loginName server client line = some name) :
    waitsFor client line = none := by
  unfold waitsFor
  rcases loginName_verb h with hverb | hverb <;> simp [hverb, Transfer.ofVerb]

end Login

/-- The service, and the name under which each connection is logged in. -/
structure Attended where
  service : Service
  logins : ClientId → Option Text := fun _ => none

namespace Attended

/-- The name that the event logs its connection in under. -/
def entering (a : Attended) : ServiceEvent → Option (ClientId × Text)
  | .client id (.line _) =>
      a.service.loops[id]?.bind fun loop => loop.nextCommand.bind fun line =>
        (loginName a.service.server loop.client line).map fun name => (id, name)
  | _ => none

/-- The connection whose loop ends with the event. -/
def leaving : ServiceEvent → Option ClientId
  | .client id .leave => some id
  | _ => none

def observe (a : Attended) (e : ServiceEvent) : ClientId → Option Text :=
  match a.entering e, leaving e with
  | some (id, name), _ => Function.update a.logins id (some name)
  | none, some id => Function.update a.logins id none
  | none, none => a.logins

def step (a : Attended) (e : ServiceEvent) : Option Attended :=
  (a.service.step e).map fun service => ⟨service, a.observe e⟩

def presence (a : Attended) : Presence ClientId Text :=
  ⟨a.logins, {name | name ∈ a.service.server.connUsers}⟩

/-- The connected users are the names under which somebody is logged in. -/
def Exact (a : Attended) : Prop := a.presence.Exact

/-- A log-in leaves behind no name that only its connection used, and when
the loop of an authenticated client ends, `client->user` is its own name
and nobody else's. -/
def KeepsExact (a : Attended) (e : ServiceEvent) : Prop :=
  (∀ id name, a.entering e = some (id, name) → a.presence.Spares id name) ∧
    ∀ id, leaving e = some id → ∀ loop, a.service.loops[id]? = some loop →
      loop.stage = .ending → loop.client.auth = true →
        a.presence.Alone id loop.client.user ∧ a.presence.Spares id loop.client.user

def Authenticated (a : Attended) : Prop :=
  ∀ id name, a.logins id = some name →
    ∃ loop, a.service.loops[id]? = some loop ∧ loop.client.auth = true

variable {a b : Attended} {e : ServiceEvent} {id : ClientId} {name : Text} {loop : Loop}

theorem entering_eq_some_iff : a.entering e = some (id, name) ↔ ∃ os loop line,
    e = .client id (.line os) ∧ a.service.loops[id]? = some loop ∧
      loop.nextCommand = some line ∧ loginName a.service.server loop.client line = some name := by
  unfold entering
  split
  · next other os =>
      simp only [Option.bind_eq_some_iff, Option.map_eq_some_iff, Prod.mk.injEq]
      constructor
      · rintro ⟨loop, hloop, line, hline, name', hname, rfl, rfl⟩
        exact ⟨os, loop, line, rfl, hloop, hline, hname⟩
      · rintro ⟨os', loop, line, heq, hloop, hline, hname⟩
        cases heq
        exact ⟨loop, hloop, line, hline, name, hname, rfl, rfl⟩
  · next hevent =>
      apply iff_of_false (by simp)
      rintro ⟨os, loop, line, rfl, -⟩
      exact hevent id os rfl

theorem leaving_eq_some_iff : leaving e = some id ↔ e = .client id .leave := by
  unfold leaving
  split
  · next other => simp
  · next hevent => exact iff_of_false (by simp) fun h => hevent id h

/-- A log-in is never held up, and enters the name. -/
theorem step_entering (h : a.entering e = some (id, name)) :
    ∃ b, a.step e = some b ∧ b.presence = a.presence.enter id name ∧
      ∃ loop, b.service.loops[id]? = some loop ∧ loop.client.auth = true := by
  have hobserve : a.observe e = Function.update a.logins id (some name) := by
    simp only [observe, h]
  obtain ⟨os, loop, line, rfl, hloop, hline, hname⟩ := entering_eq_some_iff.mp h
  obtain ⟨partialLine, -, hmove⟩ := move_line os a.service.server hline
  rw [waitsFor_login hname] at hmove
  have hstep := Service.clientStep_of_move id hmove (openedBy_login os hname)
  refine ⟨_, by rw [step, Service.step, hloop, Option.bind_some, hstep, Option.map_some], ?_, ?_⟩
  · unfold presence Presence.enter
    rw [hobserve]
    congr 1
    ext other
    simp [Service.setLoop, Service.settle, dispatch_login, Server.list, hname]
  · have hlength := (List.getElem?_eq_some_iff.mp hloop).1
    refine ⟨_, List.getElem?_set_self hlength, ?_⟩
    simp [dispatch_login, hname]

/-- The loop of a client that is not authenticated erases no name. -/
theorem step_leaving (hloop : a.service.loops[id]? = some loop) (hstage : loop.stage = .ending) :
    ∃ b, a.step (.client id .leave) = some b ∧
      b.presence = if loop.client.auth then a.presence.leave id loop.client.user
        else ⟨Function.update a.logins id none, a.presence.present⟩ := by
  have hmove : loop.move a.service.server .leave = some ({ a.service.server with
      connUsers := if loop.client.auth then a.service.server.connUsers.erase loop.client.user
        else a.service.server.connUsers }, { loop with stage := .removing }, []) := by
    simp only [Loop.move, hstage]
  have hstep := Service.clientStep_of_move id hmove rfl
  refine ⟨_, by rw [step, Service.step, hloop, Option.bind_some, hstep, Option.map_some], ?_⟩
  have hobserve : a.observe (.client id .leave) = Function.update a.logins id none := rfl
  split
  · next hauth =>
      unfold presence Presence.leave
      rw [hobserve]
      congr 1
      ext other
      simp [Service.setLoop, Service.settle, and_comm]
  · unfold presence
    rw [hobserve]
    rfl

theorem connUsers_step {s t : Service} (h : s.step e = some t)
    (hother : ∀ id m, e ≠ .client id m) : t.server.connUsers = s.server.connUsers := by
  cases e with
  | client id m => exact (hother id m rfl).elim
  | spawn =>
      simp only [Service.step] at h
      split at h
      · cases h
        rfl
      · cases h
  | addUser | addAnonymousUser | clearUsers =>
      cases h
      rfl
  | _ =>
      obtain ⟨-, ht⟩ := Option.ite_none_right_eq_some.mp h
      cases ht
      rfl

theorem connUsers_clientStep {s t : Service} {m : Move}
    (h : s.clientStep id loop m = some t) (hleave : m ≠ .leave)
    (hlogin : ∀ os line, m = .line os → loop.nextCommand = some line →
      loginName s.server loop.client line = none) : t.server.connUsers = s.server.connUsers := by
  rcases Service.clientStep_cases h with ⟨-, -, rfl⟩ | ⟨server, next, effects, hmove, -, -, rfl⟩
  · unfold Service.removeClient
    split <;> rfl
  · cases moved hmove with
    | dispatched os line partialLine hcommand hwaits =>
        simp only [Service.setLoop, Service.settle, dispatch_login,
          hlogin os line rfl hcommand, Server.list, Option.elim_none]
    | left => exact (hleave rfl).elim
    | _ => rfl

theorem moved_auth {server server' : Server} {loop' : Loop} {m : Move} {effects : List Effect}
    (h : Moved server loop m server' loop' effects) (hauth : loop.client.auth = true) :
    loop'.client.auth = true := by
  cases h with
  | dispatched os line => simp [dispatch_login, hauth]
  | begun | carried =>
      unfold Loop.transferOn
      split <;> exact hauth
  | _ => exact hauth

theorem clientStep_loops {s t : Service} {m : Move}
    (h : s.clientStep id loop m = some t) :
    ∃ loop', t.loops = s.loops.set id loop' ∧
      (loop.client.auth = true → loop'.client.auth = true) := by
  rcases Service.clientStep_cases h with ⟨-, -, rfl⟩ | ⟨server, next, effects, hmove, -, -, rfl⟩
  · unfold Service.removeClient
    split
    · exact ⟨_, rfl, fun hauth => hauth⟩
    · exact ⟨_, rfl, fun hauth => hauth⟩
  · exact ⟨next, rfl, moved_auth (moved hmove)⟩

theorem loops_step {s t : Service} (h : s.step e = some t) (hloop : s.loops[id]? = some loop) :
    ∃ loop', t.loops[id]? = some loop' ∧ (loop.client.auth = true → loop'.client.auth = true) := by
  have hlength := (List.getElem?_eq_some_iff.mp hloop).1
  cases e with
  | client other m =>
      obtain ⟨loop', hloop', hstep⟩ := Option.bind_eq_some_iff.mp h
      obtain ⟨next, hnext, hauth⟩ := clientStep_loops hstep
      rw [hnext]
      by_cases hother : other = id
      · subst hother
        obtain rfl := Option.some.inj (hloop.symm.trans hloop')
        exact ⟨next, by simp [hlength], hauth⟩
      · exact ⟨loop, by rw [List.getElem?_set_ne hother, hloop], fun h => h⟩
  | spawn =>
      simp only [Service.step] at h
      split at h
      · next other hstarting =>
          cases h
          simp only [Service.startLoop, List.getElem?_modify, hloop]
          split
          · exact ⟨_, rfl, fun h => h⟩
          · exact ⟨_, rfl, fun h => h⟩
      · cases h
  | addUser | addAnonymousUser | clearUsers =>
      cases h
      exact ⟨loop, hloop, fun h => h⟩
  | accept sock =>
      obtain ⟨-, ht⟩ := Option.ite_none_right_eq_some.mp h
      cases ht
      exact ⟨loop, by rw [Service.acceptClient, List.getElem?_append_left hlength, hloop],
        fun h => h⟩
  | stopSweep | acceptorSweep =>
      obtain ⟨-, ht⟩ := Option.ite_none_right_eq_some.mp h
      cases ht
      refine ⟨_, by rw [Service.sweep, List.getElem?_mapIdx, hloop, Option.map_some], ?_⟩
      split
      · exact fun h => h
      · exact fun h => h
  | _ =>
      obtain ⟨-, ht⟩ := Option.ite_none_right_eq_some.mp h
      cases ht
      exact ⟨loop, hloop, fun h => h⟩

theorem authenticated_step (hauth : a.Authenticated) (h : a.step e = some b) :
    b.Authenticated := by
  intro other name hname
  obtain ⟨service, hservice, rfl⟩ := Option.map_eq_some_iff.mp h
  -- A connection that was logged in before is still authenticated.
  have hkept : ∀ name, a.logins other = some name →
      ∃ loop, service.loops[other]? = some loop ∧ loop.client.auth = true := by
    intro name hname
    obtain ⟨loop, hloop, hloop'⟩ := hauth other name hname
    obtain ⟨loop', hloop', hauth'⟩ := loops_step hservice hloop
    exact ⟨loop', hloop', hauth' ‹_›⟩
  cases hentering : a.entering e with
  | some entry =>
      obtain ⟨id, entered⟩ := entry
      by_cases hother : other = id
      · subst hother
        obtain ⟨b', hb', -, hloop⟩ := step_entering hentering
        obtain rfl := Option.some.inj (h.symm.trans hb')
        exact hloop
      · simp only [observe, hentering, Function.update_of_ne hother] at hname
        exact hkept name hname
  | none =>
      cases hleaving : leaving e with
      | none =>
          simp only [observe, hentering, hleaving] at hname
          exact hkept name hname
      | some id =>
          simp only [observe, hentering, hleaving, Function.update_apply] at hname
          split at hname
          · cases hname
          · exact hkept name hname

theorem presence_other (hentering : a.entering e = none) (hleaving : leaving e = none)
    (h : a.step e = some b) : b.presence = a.presence := by
  obtain ⟨service, hservice, rfl⟩ := Option.map_eq_some_iff.mp h
  have hobserve : a.observe e = a.logins := by simp only [observe, hentering, hleaving]
  have hconn : service.server.connUsers = a.service.server.connUsers := by
    by_cases hclient : ∃ id m, e = .client id m
    · obtain ⟨id, m, rfl⟩ := hclient
      obtain ⟨loop, hloop, hstep⟩ := Option.bind_eq_some_iff.mp hservice
      refine connUsers_clientStep hstep ?_ ?_
      · rintro rfl
        cases hleaving
      · rintro os line rfl hline
        simpa [entering, hloop, hline] using hentering
    · exact connUsers_step hservice fun id m he => hclient ⟨id, m, he⟩
  unfold presence
  rw [hobserve, hconn]

/-- The loop that ends has left its reading loop, and takes nothing of
another connection's when it is not authenticated. -/
theorem presence_leaving (hauth : a.Authenticated) (h : a.step (.client id .leave) = some b) :
    ∃ loop, a.service.loops[id]? = some loop ∧ loop.stage = .ending ∧
      b.presence = if loop.client.auth then a.presence.leave id loop.client.user
        else a.presence := by
  obtain ⟨service, hservice, -⟩ := Option.map_eq_some_iff.mp h
  obtain ⟨loop, hloop, hstep⟩ := Option.bind_eq_some_iff.mp hservice
  have hstage : loop.stage = .ending := by
    rcases Service.clientStep_cases hstep with ⟨-, hm, -⟩ | ⟨server, next, effects, hmove, -⟩
    · cases hm
    · cases moved hmove with
      | read stage partialLine hm => cases hm
      | left hstage => exact hstage
  refine ⟨loop, hloop, hstage, ?_⟩
  obtain ⟨b', hb', hpresence⟩ := step_leaving hloop hstage
  obtain rfl := Option.some.inj (h.symm.trans hb')
  rw [hpresence]
  split
  · rfl
  · next hloopAuth =>
      have hnone : a.logins id = none := by
        cases hlogin : a.logins id with
        | none => rfl
        | some name =>
            obtain ⟨loop', hloop', hauth'⟩ := hauth id name hlogin
            obtain rfl := Option.some.inj (hloop.symm.trans hloop')
            exact absurd hauth' hloopAuth
      unfold presence
      rw [← hnone, Function.update_eq_self]

/-- The step lemma: exactly the steps that keep the law lead to an exact set. -/
theorem exact_step_iff (hexact : a.Exact) (hauth : a.Authenticated) (h : a.step e = some b) :
    b.Exact ↔ a.KeepsExact e := by
  cases hentering : a.entering e with
  | some entry =>
      obtain ⟨id, name⟩ := entry
      have hleaving : leaving e = none := by
        obtain ⟨os, loop, line, rfl, -⟩ := entering_eq_some_iff.mp hentering
        rfl
      obtain ⟨b', hb', hpresence, -⟩ := step_entering hentering
      obtain rfl := Option.some.inj (h.symm.trans hb')
      rw [Exact, hpresence, Presence.exact_enter_iff hexact]
      simp [KeepsExact, hentering, hleaving]
  | none =>
      cases hleaving : leaving e with
      | none =>
          rw [Exact, presence_other hentering hleaving h]
          exact iff_of_true hexact (by simp [KeepsExact, hentering, hleaving])
      | some id =>
          obtain rfl := leaving_eq_some_iff.mp hleaving
          obtain ⟨loop, hloop, hstage, hpresence⟩ := presence_leaving hauth h
          rw [Exact, hpresence]
          split
          · next hloopAuth =>
              rw [Presence.exact_leave_iff hexact]
              simp [KeepsExact, hentering, hleaving, hloop, hstage, hloopAuth]
          · next hloopAuth =>
              apply iff_of_true hexact
              simp [KeepsExact, hentering, hleaving, hloop, hloopAuth]

/-- Only a step that is enabled can miss the law. -/
theorem enabled_of_not_keepsExact (h : ¬ a.KeepsExact e) : ∃ b, a.step e = some b := by
  cases hentering : a.entering e with
  | some entry =>
      obtain ⟨id, name⟩ := entry
      obtain ⟨b, hb, -⟩ := step_entering hentering
      exact ⟨b, hb⟩
  | none =>
      cases hleaving : leaving e with
      | none => exact absurd (by simp [KeepsExact, hentering, hleaving]) h
      | some id =>
          obtain rfl := leaving_eq_some_iff.mp hleaving
          by_contra hstuck
          refine h ⟨by simp [hentering], fun id' hid loop hloop hstage _ => ?_⟩
          obtain rfl : id = id' := by simpa [leaving] using hid
          obtain ⟨b, hb, -⟩ := step_leaving hloop hstage
          exact absurd ⟨b, hb⟩ hstuck

end Attended

/-- A server that has not been started. -/
def Attended.fresh (tmp : Text) : Attended := ⟨{ server := { tmp } }, fun _ => none⟩

/-- Exactness of the connected users. In every interleaving of the client
loops, the accept loop, `stop()` and the registry calls, the set is exact in
every state exactly when every log-in and every end of a loop keeps it so. -/
theorem logged_in_names_exact_iff (tmp : Text) (events : List ServiceEvent) :
    Always Attended.step Attended.Exact (Attended.fresh tmp) events ↔
      Along Attended.step Attended.KeepsExact (Attended.fresh tmp) events := by
  refine always_iff_along (I := fun a : Attended => a.Exact ∧ a.Authenticated) (fun a h => h.1)
    (fun a e b h hkeeps hstep => ?_) (fun a e h hkeeps => ?_) ⟨?_, ?_⟩ events
  · exact ⟨(Attended.exact_step_iff h.1 h.2 hstep).mpr hkeeps,
      Attended.authenticated_step h.2 hstep⟩
  · obtain ⟨b, hstep⟩ := Attended.enabled_of_not_keepsExact hkeeps
    exact ⟨b, hstep, mt (Attended.exact_step_iff h.1 h.2 hstep).mp hkeeps⟩
  · intro name
    simp [Attended.fresh, Attended.presence]
  · intro id name h
    cases h

/-- Two connections are logged in as alice, and one of them hangs up. -/
theorem logged_in_names_not_exact :
    ¬ ∀ tmp events, Always Attended.step Attended.Exact (Attended.fresh tmp) events := by
  intro h
  let login (id : ClientId) (sock : RawSocket) : List ServiceEvent :=
    [.acceptorCheck, .accept sock, .spawn, .client id .enter,
      .client id (.received (some "USER alice
PASS secret
")),
      .client id (.line grantingOs), .client id (.line grantingOs)]
  let events : List ServiceEvent :=
    .addUser "alice" "secret" "/alice" FtpPermission.all :: .start :: login 0 4 ++ login 1 5 ++
      [.client 0 (.line grantingOs), .client 0 .enter, .client 0 (.received none),
        .client 0 .leave]
  have hrun : ((run Attended.step (Attended.fresh "/tmp/ms") events).any fun a =>
      decide (a.logins 1 = some (txt "alice") ∧
        txt "alice" ∉ a.service.server.connUsers)) = true := by
    decide +kernel
  obtain ⟨final, hfinal, hlast⟩ := (Option.any_eq_true _ _).mp hrun
  obtain ⟨hsecond, hgone⟩ := of_decide_eq_true hlast
  exact hgone (((h _ events).of_run hfinal _).mpr ⟨1, hsecond⟩)

end MockServices.Ftp
