import Mathlib.Data.List.Nodup
import MockServices.Foundations.Presence
import MockServices.Foundations.Run
import MockServices.Sftp.World

/-!
# Who is logged in to the SFTP server

What the server keeps under `mtx_` about log-ins: the configured users,
the user of each session, and the list of connected users. The list has
one entry for a name however many sessions use it, and a session that is
removed takes the entry with it.
-/

namespace MockServices.Sftp

open Foundations

/-- An `ssh_session` pointer. -/
abbrev SshSession := ℕ

structure User where
  name : Text
  pass : Text
  root : Text
  perm : SftpPermission

structure Accounts where
  users : List User := []
  sessionUsers : SshSession → Option Text := fun _ => none
  connUsers : List Text := []

/-- The sections under `mtx_` that change the log-ins. -/
inductive AccountEvent where
  | addUser (name pass root : Text) (perm : SftpPermission)
  | clearUsers
  | checkAuth (session : SshSession) (user password : Text)
  | removeSession (session : SshSession)
  -- The last section of `stop()`.
  | stop

def addUser (name pass root : Text) (perm : SftpPermission) : List User → List User
  | [] => [⟨name, pass, root, perm⟩]
  | u :: users =>
      if u.name = name then { u with pass, root, perm } :: users
      else u :: addUser name pass root perm users

namespace Accounts

/-- Some configured user has the name and the password. -/
def accepts (a : Accounts) (user password : Text) : Bool :=
  a.users.any fun configuredUser => configuredUser.name = user ∧ configuredUser.pass = password

def checkAuth (a : Accounts) (session : SshSession) (user password : Text) : Accounts :=
  if a.accepts user password then
    { a with
      sessionUsers := Function.update a.sessionUsers session (some user)
      connUsers := if user ∈ a.connUsers then a.connUsers else a.connUsers ++ [user] }
  else a

def removeSession (a : Accounts) (session : SshSession) : Accounts :=
  match a.sessionUsers session with
  | none => a
  | some user =>
      { a with
        connUsers := a.connUsers.erase user
        sessionUsers := Function.update a.sessionUsers session none }

def connectedUsers (a : Accounts) : List Text := a.connUsers

def next (a : Accounts) : AccountEvent → Accounts
  | .addUser name pass root perm => { a with users := addUser name pass root perm a.users }
  | .clearUsers => { a with users := [] }
  | .checkAuth session user password => a.checkAuth session user password
  | .removeSession session => a.removeSession session
  | .stop => { a with connUsers := [], sessionUsers := fun _ => none }

def step (a : Accounts) (event : AccountEvent) : Option Accounts := some (a.next event)

def presence (a : Accounts) : Presence SshSession Text :=
  ⟨a.sessionUsers, {user | user ∈ a.connectedUsers}⟩

/-- The connected users are the names that some session maps to, each once. -/
structure Exact (a : Accounts) : Prop where
  once : a.connectedUsers.Nodup
  listed : a.presence.Exact

/-- A log-in leaves behind no name that only its session used, and a
session is removed while no other uses its name. -/
def KeepsExact (a : Accounts) : AccountEvent → Prop
  | .checkAuth session user password =>
      a.accepts user password = true → a.presence.Spares session user
  | .removeSession session =>
      ∀ user, a.sessionUsers session = some user → a.presence.Alone session user
  | _ => True

variable {a : Accounts} {session : SshSession} {user password : Text}

theorem presence_checkAuth (h : a.accepts user password = true) :
    (a.checkAuth session user password).presence = a.presence.enter session user := by
  unfold checkAuth presence Presence.enter connectedUsers
  rw [if_pos h]
  congr 1
  ext name
  by_cases huser : user ∈ a.connUsers
  · simp only [huser, if_true, Set.mem_ofPred_eq, Set.mem_insert_iff, iff_or_self]
    rintro rfl
    exact huser
  · simp [huser, or_comm]

theorem nodup_checkAuth (h : a.connUsers.Nodup) :
    (a.checkAuth session user password).connUsers.Nodup := by
  unfold checkAuth
  split
  · by_cases huser : user ∈ a.connUsers
    · simpa [huser] using h
    · simpa [huser, List.nodup_append] using ⟨h, fun name hname => ne_of_mem_of_not_mem hname huser⟩
  · exact h

theorem removeSession_eq (h : a.sessionUsers session = some user) :
    a.removeSession session = { a with
      connUsers := a.connUsers.erase user
      sessionUsers := Function.update a.sessionUsers session none } := by
  simp only [removeSession, h]

theorem presence_removeSession (h : a.sessionUsers session = some user)
    (honce : a.connUsers.Nodup) :
    (a.removeSession session).presence = a.presence.leave session user := by
  rw [removeSession_eq h]
  unfold presence Presence.leave connectedUsers
  congr 1
  ext name
  simp [honce.mem_erase_iff, and_comm]

/-- The name of the removed session itself is never missed. -/
theorem spares_self (h : a.sessionUsers session = some user) : a.presence.Spares session user := by
  intro held hheld
  exact Or.inl (Option.some.inj (Eq.trans (Eq.symm hheld) h))

theorem exact_checkAuth_iff (hexact : a.Exact) (h : a.accepts user password = true) :
    (a.checkAuth session user password).Exact ↔ a.presence.Spares session user := by
  rw [← Presence.exact_enter_iff hexact.listed, ← presence_checkAuth h]
  exact ⟨Exact.listed, fun hlisted => ⟨nodup_checkAuth hexact.once, hlisted⟩⟩

theorem exact_removeSession_iff (hexact : a.Exact) (h : a.sessionUsers session = some user) :
    (a.removeSession session).Exact ↔ a.presence.Alone session user := by
  have hleave : (a.presence.leave session user).Exact ↔
      a.presence.Alone session user ∧ a.presence.Spares session user :=
    Presence.exact_leave_iff hexact.listed
  rw [and_iff_left (spares_self h), ← presence_removeSession h hexact.once] at hleave
  rw [← hleave]
  refine ⟨Exact.listed, fun hlisted => ⟨?_, hlisted⟩⟩
  rw [connectedUsers, removeSession_eq h]
  exact hexact.once.erase user

theorem exact_empty (hconnected : a.connUsers = [])
    (hsessions : ∀ session, a.sessionUsers session = none) : a.Exact := by
  refine ⟨?_, fun name => ?_⟩
  · rw [connectedUsers, hconnected]
    exact List.nodup_nil
  · simp [presence, connectedUsers, hconnected, hsessions]

/-- The step lemma: exactly the steps that keep the law lead to an exact list. -/
theorem exact_next_iff (hexact : a.Exact) (event : AccountEvent) :
    (a.next event).Exact ↔ a.KeepsExact event := by
  cases event with
  | addUser | clearUsers => exact iff_of_true ⟨hexact.once, hexact.listed⟩ trivial
  | checkAuth session user password =>
      by_cases haccepts : a.accepts user password = true
      · exact (exact_checkAuth_iff hexact haccepts).trans ⟨fun h _ => h, fun h => h haccepts⟩
      · refine iff_of_true ?_ fun h => absurd h haccepts
        rw [next, checkAuth, if_neg haccepts]
        exact hexact
  | removeSession session =>
      cases huser : a.sessionUsers session with
      | none =>
          refine iff_of_true ?_ fun user h => by simp [huser] at h
          rw [next, removeSession, huser]
          exact hexact
      | some user =>
          refine (exact_removeSession_iff hexact huser).trans ⟨fun h user' huser' => ?_,
            fun h => h user huser⟩
          obtain rfl := Option.some.inj (huser.symm.trans huser')
          exact h
  | stop => exact iff_of_true (exact_empty rfl fun _ => rfl) trivial

/-- Exactness of the connected users. In every run of log-ins, removals
and changes of the registry the list is exact in every state exactly when
every step keeps it so. -/
theorem connected_users_exact_iff (events : List AccountEvent) :
    Always step Exact {} events ↔ Along step KeepsExact {} events := by
  refine always_iff_along (I := Exact) (fun a h => h) (fun a event b h hkeeps hstep => ?_)
    (fun a event h hkeeps => ?_) (exact_empty rfl fun _ => rfl) events
  · obtain rfl := Option.some.inj hstep
    exact (exact_next_iff h event).mpr hkeeps
  · exact ⟨a.next event, rfl, mt (exact_next_iff h event).mp hkeeps⟩

/-- Alice is logged in twice, and the first of her sessions ends. -/
theorem connected_users_not_exact : ¬ ∀ events, Always step Exact {} events := by
  intro h
  let events : List AccountEvent := [.addUser "alice" "secret" "/srv/alice" SftpPermission.all,
    .checkAuth 1 "alice" "secret", .checkAuth 2 "alice" "secret", .removeSession 1]
  let final : Accounts := events.foldl next {}
  have hexact := (h events).of_run (t := final) rfl
  have hsecond : final.sessionUsers 2 = some "alice" := by decide
  have hlisted : txt "alice" ∈ final.connectedUsers := (hexact.listed _).mpr ⟨2, hsecond⟩
  exact absurd hlisted (by decide)

end Accounts

end MockServices.Sftp
