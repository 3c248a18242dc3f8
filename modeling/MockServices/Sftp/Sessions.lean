import MockServices.Sftp.Service

/-!
# The sessions of the SFTP server

libssh may give a session the address of one that was freed, and the
server keys its log-ins and its handshake states by the address. Both are
struck off before a session is freed, so no session finds the log-in or
the handshake of an earlier one, and each session is freed once.
-/

namespace MockServices.Sftp

open Foundations

namespace Service

variable {σ : Type}

/-- The sessions as what is issued, held and ended. -/
def tenure (s : Service σ) : Tenure PartyId SshSession Standing where
  seat
    | none => s.acceptor.seat
    | some i =>
        s.threads[i]?.bind fun thread =>
          thread.stage.standing.map fun standing => (thread.session, standing)
  issued := s.issued
  ended := s.freed

end Service

/-- The service, and what has come of each session by its number: the names
that it has given the password of, and the account that `lookup_user` found. -/
structure Audited (σ : Type) where
  service : Service σ
  proved : ℕ → List Text := fun _ => []
  found : ℕ → Option User := fun _ => none

/-- The account that belongs to the log-in of the session. -/
def accountOf (a : Accounts) (session : SshSession) : Option User :=
  (a.sessionUsers session).bind fun username =>
    a.users.find? fun configuredUser => configuredUser.name = username

namespace Audited

variable {σ : Type}

def observed (a : Audited σ) : ServiceEvent → Audited σ
  | .callback party (.authPassword user password) =>
      match a.service.listening party with
      | none => a
      | some session =>
          if a.service.accounts.accepts user password then
            { a with
              proved := Function.update a.proved session.number
                (a.proved session.number ++ [user]) }
          else a
  | .thread i .lookUp =>
      match a.service.threads[i]? with
      | none => a
      | some thread =>
          { a with
            found := Function.update a.found thread.session.number
              (accountOf a.service.accounts thread.session.address) }
  | _ => a

def step (env : Environment σ) (longWidth : ℕ) (a : Audited σ) (event : ServiceEvent) :
    Option (Audited σ) :=
  (a.service.step env longWidth event).map fun service => { a.observed event with service }

/-- The name under which the session is logged in. -/
def loggedIn (a : Audited σ) (number : ℕ) : Option Text := (a.proved number).getLast?

end Audited

/-! ## Changes of the tenure -/

namespace Service

variable {σ : Type} {s : Service σ} {session : Lease SshSession} {stage : AcceptorStage}
  {standing standing' : Standing} {i : ℕ} {thread : SessionThread} {next : ThreadStage}

theorem seat_none : s.tenure.seat none = s.acceptor.seat := rfl

theorem seat_some (i : ℕ) :
    s.tenure.seat (some i) = s.threads[i]?.bind fun thread =>
      thread.stage.standing.map fun standing => (thread.session, standing) := rfl

theorem seat_thread (hthread : s.threads[i]? = some thread)
    (hstanding : thread.stage.standing = some standing) :
    s.tenure.seat (some i) = some (thread.session, standing) := by
  rw [seat_some, hthread, Option.bind_some, hstanding, Option.map_some]

theorem vacant_of_not_inUse {address : SshSession} (h : ¬ s.InUse address) :
    s.tenure.Vacant address := by
  rintro (- | i) session standing hseat haddress
  · refine h (.inl ⟨session, ?_, haddress⟩)
    rw [seat_none] at hseat
    cases hacceptor : s.acceptor <;> rw [hacceptor] at hseat <;> cases hseat <;> rfl
  · obtain ⟨thread, hthread, hstanding⟩ := Option.bind_eq_some_iff.mp hseat
    obtain ⟨standing', hstage, heq⟩ := Option.map_eq_some_iff.mp hstanding
    cases heq
    refine h (.inr ⟨thread, List.mem_of_getElem? hthread, ?_, haddress⟩)
    cases hreturned : thread.stage <;> rw [hreturned] at hstage <;> first | rfl | cases hstage

/-- A service that differs in the acceptor alone. -/
theorem tenure_acceptor {t : Service σ} {seat : Option (Lease SshSession × Standing)}
    (hseat : t.acceptor.seat = seat) (hthreads : t.threads = s.threads) :
    t.tenure.seat = Function.update s.tenure.seat none seat := by
  funext party
  cases party with
  | none => rw [Function.update_self, seat_none, hseat]
  | some i => rw [Function.update_of_ne (Option.some_ne_none i), seat_some, seat_some, hthreads]

theorem tenure_setAcceptor (hseat : stage.seat = s.acceptor.seat) :
    (s.setAcceptor stage).tenure = s.tenure := by
  have hupdate := tenure_acceptor (s := s) (t := s.setAcceptor stage) hseat rfl
  rw [← seat_none, Function.update_eq_self] at hupdate
  exact congrArg (Tenure.mk · s.issued s.freed) hupdate

theorem tenure_rerank (stage : AcceptorStage) (hacceptor : s.acceptor.seat = some (session, standing))
    (hseat : stage.seat = some (session, standing')) :
    (s.setAcceptor stage).tenure = s.tenure.rerank none standing' := by
  have hupdate := tenure_acceptor (s := s) (t := s.setAcceptor stage) hseat rfl
  unfold Tenure.rerank
  rw [seat_none, hacceptor, Option.map_some, ← hupdate]
  rfl

theorem tenure_created (address : SshSession) :
    ({ s with acceptor := .accepting ⟨s.issued, address⟩, issued := s.issued + 1 } :
      Service σ).tenure = s.tenure.issue none address .bare := by
  have hupdate := tenure_acceptor (s := s)
    (t := { s with acceptor := .accepting ⟨s.issued, address⟩, issued := s.issued + 1 })
    rfl rfl
  unfold Tenure.issue
  rw [show s.tenure.issued = s.issued from rfl]
  exact congrArg (Tenure.mk · (s.issued + 1) s.freed) hupdate

theorem tenure_handedOver (hacceptor : s.acceptor = .exchanging session) :
    ({ s with acceptor := .head, threads := s.threads ++ [⟨session, .spawned⟩] } :
      Service σ).tenure = s.tenure.handOver none (some s.threads.length) .enrolled := by
  have hgiver : s.tenure.seat none = some (session, .enrolled) := by
    rw [seat_none, hacceptor]
    rfl
  unfold Tenure.handOver
  rw [hgiver]
  refine congrArg (Tenure.mk · s.issued s.freed) (funext fun party => ?_)
  cases party with
  | none => rw [Function.update_of_ne (Option.some_ne_none _).symm, Function.update_self]; rfl
  | some i =>
      change (s.threads ++ [⟨session, .spawned⟩])[i]?.bind _ = _
      by_cases hi : i = s.threads.length
      · subst hi
        rw [List.getElem?_concat_length, Function.update_self]
        rfl
      · rw [Function.update_of_ne fun heq => hi (Option.some.inj heq),
          Function.update_of_ne (Option.some_ne_none i), seat_some, List.getElem?_append]
        split
        · rfl
        · next hlength =>
            have hgap : 0 < i - s.threads.length :=
              Nat.sub_pos_of_lt (Nat.lt_of_le_of_ne (Nat.le_of_not_lt hlength) (Ne.symm hi))
            rw [List.getElem?_eq_none (Nat.le_of_not_lt hlength), List.getElem?_eq_none hgap]

theorem tenure_dropped (hacceptor : s.acceptor.seat = some (session, standing))
    (hstage : stage.seat = none) :
    ((s.free session).setAcceptor stage).tenure = s.tenure.finish none := by
  have hupdate := tenure_acceptor (s := s) (t := (s.free session).setAcceptor stage) hstage rfl
  unfold Tenure.finish
  rw [seat_none, hacceptor, ← hupdate]
  rfl

theorem seat_setStage (next : ThreadStage) (hthread : s.threads[i]? = some thread) :
    (s.setStage i next).tenure.seat =
      Function.update s.tenure.seat (some i)
        (next.standing.map fun standing => (thread.session, standing)) := by
  funext party
  cases party with
  | none => rw [Function.update_of_ne (Option.some_ne_none i).symm]; rfl
  | some j =>
      change (s.threads.modify i _)[j]?.bind _ = _
      rw [List.getElem?_modify]
      by_cases hj : i = j
      · subst hj
        simp [hthread]
      · rw [Function.update_of_ne fun heq => hj (Option.some.inj heq).symm, seat_some]
        simp [hj]

theorem tenure_setStage (next : ThreadStage) (hthread : s.threads[i]? = some thread)
    (hbefore : thread.stage.standing = some standing) (hafter : next.standing = some standing') :
    (s.setStage i next).tenure = s.tenure.rerank (some i) standing' := by
  have hupdate := seat_setStage next hthread
  rw [hafter] at hupdate
  unfold Tenure.rerank
  rw [seat_thread hthread hbefore, Option.map_some]
  exact congrArg (Tenure.mk · s.issued s.freed) hupdate

theorem tenure_freed (next : ThreadStage) (hthread : s.threads[i]? = some thread)
    (hbefore : thread.stage.standing = some standing) (hafter : next.standing = none) :
    ((s.free thread.session).setStage i next).tenure = s.tenure.finish (some i) := by
  have hupdate := seat_setStage (s := s.free thread.session) next hthread
  rw [hafter] at hupdate
  unfold Tenure.finish
  rw [seat_thread hthread hbefore]
  exact congrArg (Tenure.mk · s.issued (s.freed ++ [thread.session.number])) hupdate

theorem standing_of_isReturned (h : thread.stage.isReturned = true) :
    thread.stage.standing = none := by
  cases hstage : thread.stage with
  | returned => rfl
  | _ =>
      rw [hstage] at h
      cases h

theorem tenure_threadsJoined (phase : ServerPhase) (hreturned : s.AllReturned) :
    ({ s with phase := phase, threads := [] } : Service σ).tenure = s.tenure := by
  refine congrArg (Tenure.mk · s.issued s.freed) (funext fun party => ?_)
  cases party with
  | none => rfl
  | some i =>
      change none = s.tenure.seat (some i)
      rw [seat_some]
      cases hthread : s.threads[i]? with
      | none => rfl
      | some thread =>
          have hstage := standing_of_isReturned (hreturned thread (List.mem_of_getElem? hthread))
          rw [Option.bind_some, hstage, Option.map_none]

/-- Nobody has a session when the acceptor and the threads have gone. -/
theorem leases_of_gone (kind : Standing → Prop) (hacceptor : s.acceptor = .finished)
    (hthreads : s.threads = []) : s.tenure.leases kind = ∅ := by
  refine Set.eq_empty_of_forall_notMem ?_
  rintro session ⟨- | i, standing, hseat, -⟩
  · rw [seat_none, hacceptor] at hseat
    cases hseat
  · obtain ⟨thread, hthread, -⟩ := Option.bind_eq_some_iff.mp hseat
    simp [hthreads] at hthread

end Service

/-! ## The accounts -/

namespace Accounts

variable {a : Accounts} {session : SshSession} {user password : Text}

theorem sessionUsers_checkAuth (h : a.accepts user password = true) :
    (a.checkAuth session user password).sessionUsers =
      Function.update a.sessionUsers session (some user) := by
  rw [checkAuth, if_pos h]

theorem checkAuth_refused (h : a.accepts user password = false) :
    a.checkAuth session user password = a := by
  rw [checkAuth, if_neg (by simp [h])]

theorem sessionUsers_removeSession :
    (a.removeSession session).sessionUsers = Function.update a.sessionUsers session none := by
  cases huser : a.sessionUsers session with
  | none =>
      rw [← huser, Function.update_eq_self, removeSession, huser]
  | some user => rw [removeSession_eq huser]

end Accounts

/-! ## The sessions in order -/

namespace Audited

variable {σ : Type} {a b : Audited σ} {env : Environment σ} {longWidth : ℕ}
  {event : ServiceEvent}

/-- The log-ins and the handshake states are those of sessions that are
still in use, and the log-in of a session is its own. -/
structure Sound (a : Audited σ) : Prop where
  tenure : a.service.tenure.Sound
  users : Mirrors (a.service.tenure.leases Standing.isEnrolled) a.service.accounts.sessionUsers
    a.loggedIn
  handshakes : Mirrors (a.service.tenure.leases (· = .shaking))
    ((Option.map fun _ => ()) ∘ a.service.handshakes) fun _ => some ()
  unproved : ∀ number, a.service.issued ≤ number → a.proved number = []
  waiting : ∀ session, a.service.acceptor = .accepting session ∨
    a.service.acceptor = .accepted session → a.proved session.number = []
  acceptorGone : a.service.phase ∈ [ServerPhase.idle, .joining, .clearing] →
    a.service.acceptor = .finished
  threadsGone : a.service.phase ∈ [ServerPhase.idle, .clearing] → a.service.threads = []

theorem sound_init (env : σ) : Sound ⟨{ env := env }, fun _ => [], fun _ => none⟩ := by
  have hgone : ∀ kind, ({ env := env } : Service σ).tenure.leases kind = ∅ := fun kind =>
    Service.leases_of_gone kind rfl rfl
  refine ⟨?_, ?_, ?_, fun _ _ => rfl, ?_, fun _ => rfl, fun _ => rfl⟩
  · have hseat : ∀ p a r, ({ env := env } : Service σ).tenure.seat p ≠ some (a, r) := by
      intro p a r hp
      have hmem : a ∈ ({ env := env } : Service σ).tenure.leases fun _ => True := ⟨p, r, hp, trivial⟩
      rw [hgone] at hmem
      cases hmem
    refine ⟨fun p q a r b r' hp => absurd hp (hseat p a r), fun n => ?_, List.nodup_nil,
      fun p a r hp => absurd hp (hseat p a r)⟩
    refine iff_of_false (Nat.not_lt_zero n) ?_
    rintro (hended | ⟨p, a, r, hp, -⟩)
    · cases hended
    · exact hseat p a r hp
  · rw [hgone]
    exact Mirrors.empty
  · rw [hgone]
    exact Mirrors.empty
  · rintro session (h | h) <;> cases h

theorem observed_of_not_witnesses (h : event.witnesses = false) : a.observed event = a := by
  cases event with
  | callback party callback =>
      cases callback with
      | authPassword user password => cases h
      | channelOpenSession | channelSubsystem => rfl
  | thread i action =>
      cases action with
      | lookUp => cases h
      | _ => rfl
  | _ => rfl

theorem Sound.threadsGone_setStage (h : Sound a) {s : Service σ} {i : ℕ} {thread : SessionThread}
    (hphase : s.phase = a.service.phase) (hthread : a.service.threads[i]? = some thread)
    (stage : ThreadStage) :
    (s.setStage i stage).phase ∈ [ServerPhase.idle, .clearing] →
      (s.setStage i stage).threads = [] := by
  intro hmem
  have hgone := h.threadsGone (hphase ▸ hmem)
  rw [hgone] at hthread
  cases hthread

section Steps

variable {s : Service σ} {i : ℕ} {thread : SessionThread} {standing standing' : Standing}
  {stage : ThreadStage} {session : Lease SshSession}

/-- A thread goes on, and what is registered does not change. -/
theorem Sound.setStage (h : Sound a) (hthread : a.service.threads[i]? = some thread)
    (hbefore : thread.stage.standing = some standing) (hafter : stage.standing = some standing) :
    Sound { a with service := a.service.setStage i stage } := by
  have htenure : (a.service.setStage i stage).tenure = a.service.tenure := by
    rw [Service.tenure_setStage stage hthread hbefore hafter]
    exact Tenure.rerank_self (Service.seat_thread hthread hbefore)
  refine ⟨?_, ?_, ?_, h.unproved, h.waiting, h.acceptorGone,
    h.threadsGone_setStage rfl hthread stage⟩
  · exact htenure ▸ h.tenure
  · exact htenure ▸ h.users
  · exact htenure ▸ h.handshakes

theorem Sound.setAcceptor {next : AcceptorStage} (h : Sound a)
    (hseat : next.seat = a.service.acceptor.seat)
    (hwaiting : ∀ session, next = .accepting session ∨ next = .accepted session →
      a.proved session.number = [])
    (hfinished : a.service.acceptor ≠ .finished) :
    Sound { a with service := a.service.setAcceptor next } := by
  have htenure := Service.tenure_setAcceptor hseat
  refine ⟨?_, ?_, ?_, h.unproved, hwaiting, fun hphase => ?_, h.threadsGone⟩
  · exact htenure ▸ h.tenure
  · exact htenure ▸ h.users
  · exact htenure ▸ h.handshakes
  · exact absurd (h.acceptorGone hphase) hfinished

/-- The acceptor makes a session at an address that is not in use. -/
theorem Sound.created (h : Sound a) {address : SshSession}
    (hacceptor : a.service.acceptor = .creating) (hfree : ¬ a.service.InUse address) :
    Sound { a with service := { a.service with
      acceptor := .accepting ⟨a.service.issued, address⟩, issued := a.service.issued + 1 } } := by
  have hseat : a.service.tenure.seat none = none := by
    rw [Service.seat_none, hacceptor]
    rfl
  have htenure := Service.tenure_created (s := a.service) address
  have hleases : ∀ kind : Standing → Prop, ¬ kind .bare →
      (a.service.tenure.issue none address Standing.bare).leases kind =
        a.service.tenure.leases kind := by
    intro kind hkind
    rw [Tenure.leases_issue hseat]
    ext session
    simp [hkind]
  refine ⟨?_, ?_, ?_, fun number hnumber => ?_, fun session hsession => ?_, fun hphase => ?_,
    h.threadsGone⟩
  · rw [htenure]
    exact h.tenure.issue hseat (Service.vacant_of_not_inUse hfree) .bare
  · rw [htenure, hleases _ id]
    exact h.users
  · rw [htenure, hleases _ (by simp)]
    exact h.handshakes
  · exact h.unproved number (Nat.le_of_succ_le hnumber)
  · have hnumber : session.number = a.service.issued := by
      rcases hsession with hsession | hsession <;> cases hsession
      rfl
    exact h.unproved _ (Nat.le_of_eq hnumber.symm)
  · have hfinished := h.acceptorGone hphase
    rw [hacceptor] at hfinished
    cases hfinished

/-- From here on a password may be given. -/
theorem Sound.exchanged (h : Sound a) (hacceptor : a.service.acceptor = .accepted session) :
    Sound { a with service := a.service.setAcceptor (.exchanging session) } := by
  have hseat : a.service.acceptor.seat = some (session, .bare) := by rw [hacceptor]; rfl
  have htenure := Service.tenure_rerank (.exchanging session) hseat rfl
  have hshifts := h.tenure.shifts_rerank (p := none) hseat Standing.enrolled
  refine ⟨?_, ?_, ?_, h.unproved, fun other hother => ?_, fun hphase => ?_, h.threadsGone⟩
  · rw [htenure]
    exact h.tenure.rerank none .enrolled
  · refine h.users.enroll (fun other hother haddress => ?_) ?_ ?_ (a := session)
    · obtain rfl := h.tenure.eq_of_seat (p := none) hother hseat (.inl haddress)
      exact (h.tenure.mem_leases_iff (p := none) hseat).mp hother
    · rw [loggedIn, h.waiting session (.inr hacceptor)]
      rfl
    · rw [htenure]
      exact hshifts.leases_insert trivial
  · rw [htenure, hshifts.leases_eq h.tenure (p := none) hseat (by simp)]
    exact h.handshakes
  · rcases hother with hother | hother <;> cases hother
  · have hfinished := h.acceptorGone hphase
    rw [hacceptor] at hfinished
    cases hfinished

theorem Sound.handedOver (h : Sound a) (hacceptor : a.service.acceptor = .exchanging session) :
    Sound { a with service := { a.service with
      acceptor := .head, threads := a.service.threads ++ [⟨session, .spawned⟩] } } := by
  have hseat : a.service.tenure.seat none = some (session, .enrolled) := by
    rw [Service.seat_none, hacceptor]
    rfl
  have hfree : a.service.tenure.seat (some a.service.threads.length) = none := by
    rw [Service.seat_some, List.getElem?_eq_none (Nat.le_refl _), Option.bind_none]
  have htenure := Service.tenure_handedOver hacceptor
  have hne := (Option.some_ne_none a.service.threads.length).symm
  have hshifts := h.tenure.shifts_handOver hne hfree hseat Standing.enrolled
  have hfinished : a.service.phase ∈ [ServerPhase.idle, .joining, .clearing] → False := by
    intro hphase
    have hfinished := h.acceptorGone hphase
    rw [hacceptor] at hfinished
    cases hfinished
  refine ⟨?_, ?_, ?_, h.unproved, fun other hother => ?_, fun hphase => ?_, fun hphase => ?_⟩
  · rw [htenure]
    exact h.tenure.handOver hne hfree .enrolled
  · rw [htenure, hshifts.leases_eq h.tenure hseat (by simp)]
    exact h.users
  · rw [htenure, hshifts.leases_eq h.tenure hseat (by simp)]
    exact h.handshakes
  · rcases hother with hother | hother <;> cases hother
  · exact (hfinished hphase).elim
  · refine (hfinished ?_).elim
    simp only [List.mem_cons, List.not_mem_nil, or_false] at hphase ⊢
    exact hphase.imp_right .inr

/-- The log-in of a session that the acceptor gives up is struck off. -/
theorem Sound.rejected (h : Sound a) (hacceptor : a.service.acceptor = .rejecting session) :
    Sound { a with service :=
      (a.service.removeSession session.address).setAcceptor (.dropping session) } := by
  have hseat : a.service.tenure.seat none = some (session, .enrolled) := by
    rw [Service.seat_none, hacceptor]
    rfl
  have htenure : ((a.service.removeSession session.address).setAcceptor
      (.dropping session)).tenure = a.service.tenure.rerank none .bare :=
    Service.tenure_rerank (.dropping session) hseat rfl
  have hshifts := h.tenure.shifts_rerank hseat Standing.bare
  refine ⟨?_, ?_, ?_, h.unproved, fun other hother => ?_, fun hphase => ?_, h.threadsGone⟩
  · rw [htenure]
    exact h.tenure.rerank none .bare
  · have hstruck := h.users.strike (a := session) (fun other hother haddress =>
      h.tenure.eq_of_seat hother hseat (.inl haddress))
      (hshifts.leases_remove (by simp [Standing.isEnrolled]))
    rw [← Accounts.sessionUsers_removeSession] at hstruck
    rw [htenure]
    exact hstruck
  · rw [htenure, hshifts.leases_eq h.tenure hseat (by simp)]
    exact h.handshakes
  · rcases hother with hother | hother <;> cases hother
  · have hfinished := h.acceptorGone hphase
    rw [hacceptor] at hfinished
    cases hfinished

theorem Sound.dropped {next : AcceptorStage} (h : Sound a)
    (hacceptor : a.service.acceptor.seat = some (session, .bare)) (hnext : next.seat = none) :
    Sound { a with service := (a.service.free session).setAcceptor next } := by
  have htenure := Service.tenure_dropped hacceptor hnext
  have hshifts := h.tenure.shifts_finish (p := none) hacceptor
  refine ⟨?_, ?_, ?_, h.unproved, fun other hother => ?_, fun hphase => ?_, h.threadsGone⟩
  · rw [htenure]
    exact h.tenure.finish (p := none) hacceptor
  · rw [htenure, hshifts.leases_eq h.tenure (p := none) hacceptor (by simp [Standing.isEnrolled])]
    exact h.users
  · rw [htenure, hshifts.leases_eq h.tenure (p := none) hacceptor (by simp)]
    exact h.handshakes
  · exfalso
    change next = _ ∨ next = _ at hother
    rcases hother with rfl | rfl <;> cases hnext
  · have hfinished := h.acceptorGone hphase
    rw [hfinished] at hacceptor
    cases hacceptor

/-- A session that comes to its handshake finds no state under its address. -/
theorem Sound.handshakes_eq_none (h : Sound a) (hthread : a.service.threads[i]? = some thread)
    (hstanding : thread.stage.standing = some .enrolled) :
    a.service.handshakes thread.session.address = none := by
  have hseat := Service.seat_thread hthread hstanding
  have hnone := h.handshakes.eq_none thread.session.address fun other hother heq => by
    obtain rfl := h.tenure.eq_of_seat hother hseat (.inl heq)
    exact absurd ((h.tenure.mem_leases_iff hseat).mp hother) (by simp)
  simpa using hnone

theorem Sound.entered (h : Sound a) (hthread : a.service.threads[i]? = some thread)
    (hstage : thread.stage = .spawned) :
    Sound { a with service :=
      (a.service.makeHs thread.session.address).setStage i (.polling none) } := by
  have hstanding : thread.stage.standing = some .enrolled := by rw [hstage]; rfl
  have hseat := Service.seat_thread hthread hstanding
  have hmade : a.service.makeHs thread.session.address = { a.service with
      handshakes := Function.update a.service.handshakes thread.session.address (some {}) } := by
    rw [Service.makeHs, h.handshakes_eq_none hthread hstanding]
  have htenure := Service.tenure_setStage (.polling none) hthread hstanding rfl
  have hshifts := h.tenure.shifts_rerank hseat Standing.shaking
  rw [hmade]
  refine ⟨?_, ?_, ?_, h.unproved, h.waiting, h.acceptorGone, h.threadsGone_setStage rfl hthread _⟩
  · exact htenure ▸ h.tenure.rerank (some i) .shaking
  · have husers := h.users
    rw [← hshifts.leases_eq h.tenure hseat (by simp [Standing.isEnrolled]), ← htenure] at husers
    exact husers
  · have hwritten := h.handshakes.write (a := thread.session) () (fun other hother heq =>
      h.tenure.eq_of_seat hother hseat heq) (hshifts.leases_insert rfl)
    rw [← htenure, Function.update_eq_self] at hwritten
    change Mirrors _ ((Option.map fun _ => ()) ∘
      Function.update a.service.handshakes thread.session.address (some {})) _
    rw [Function.comp_update]
    exact hwritten

theorem Sound.removedHs (h : Sound a) (hthread : a.service.threads[i]? = some thread)
    (hstage : thread.stage = .leaving) :
    Sound { a with service :=
      (a.service.removeHs thread.session.address).setStage i .forgetting } := by
  have hstanding : thread.stage.standing = some .shaking := by rw [hstage]; rfl
  have hseat := Service.seat_thread hthread hstanding
  have htenure := Service.tenure_setStage .forgetting hthread hstanding rfl
  have hshifts := h.tenure.shifts_rerank hseat Standing.enrolled
  refine ⟨?_, ?_, ?_, h.unproved, h.waiting, h.acceptorGone, h.threadsGone_setStage rfl hthread _⟩
  · exact htenure ▸ h.tenure.rerank (some i) .enrolled
  · have husers := h.users
    rw [← hshifts.leases_eq h.tenure hseat (by simp [Standing.isEnrolled]), ← htenure] at husers
    exact husers
  · have hstruck := h.handshakes.strike (a := thread.session) (fun other hother heq =>
      h.tenure.eq_of_seat hother hseat (.inl heq)) (hshifts.leases_remove (by simp))
    rw [← htenure] at hstruck
    change Mirrors _ ((Option.map fun _ => ()) ∘
      Function.update a.service.handshakes thread.session.address none) _
    rw [Function.comp_update]
    exact hstruck

theorem Sound.forgotten (h : Sound a) (hthread : a.service.threads[i]? = some thread)
    (hstage : thread.stage = .forgetting) :
    Sound { a with service :=
      (a.service.removeSession thread.session.address).setStage i .freeing } := by
  have hstanding : thread.stage.standing = some .enrolled := by rw [hstage]; rfl
  have hseat := Service.seat_thread hthread hstanding
  have htenure := Service.tenure_setStage .freeing hthread hstanding rfl
  have hshifts := h.tenure.shifts_rerank hseat Standing.bare
  refine ⟨?_, ?_, ?_, h.unproved, h.waiting, h.acceptorGone, h.threadsGone_setStage rfl hthread _⟩
  · exact htenure ▸ h.tenure.rerank (some i) .bare
  · have hstruck := h.users.strike (a := thread.session) (fun other hother haddress =>
      h.tenure.eq_of_seat hother hseat (.inl haddress))
      (hshifts.leases_remove (by simp [Standing.isEnrolled]))
    rw [← Accounts.sessionUsers_removeSession, ← htenure] at hstruck
    exact hstruck
  · have hkept := h.handshakes
    rw [← hshifts.leases_eq h.tenure hseat (by simp), ← htenure] at hkept
    exact hkept

theorem Sound.freed (h : Sound a) (hthread : a.service.threads[i]? = some thread)
    (hstage : thread.stage = .freeing) :
    Sound { a with service := (a.service.free thread.session).setStage i .returned } := by
  have hstanding : thread.stage.standing = some .bare := by rw [hstage]; rfl
  have hseat := Service.seat_thread hthread hstanding
  have htenure := Service.tenure_freed .returned hthread hstanding rfl
  have hshifts := h.tenure.shifts_finish hseat
  refine ⟨?_, ?_, ?_, h.unproved, h.waiting, h.acceptorGone, h.threadsGone_setStage rfl hthread _⟩
  · exact htenure ▸ h.tenure.finish hseat
  · have husers := h.users
    rw [← hshifts.leases_eq h.tenure hseat (by simp [Standing.isEnrolled]), ← htenure] at husers
    exact husers
  · have hkept := h.handshakes
    rw [← hshifts.leases_eq h.tenure hseat (by simp), ← htenure] at hkept
    exact hkept

/-- The session that libssh calls back for may have a log-in. -/
theorem seat_of_listening {party : PartyId} (hparty : a.service.listening party = some session) :
    ∃ standing : Standing, standing.isEnrolled ∧
      a.service.tenure.seat party = some (session, standing) := by
  cases party with
  | none =>
      change a.service.acceptor.listening = _ at hparty
      rw [Service.seat_none]
      cases hacceptor : a.service.acceptor with
      | exchanging other =>
          rw [hacceptor] at hparty
          cases hparty
          exact ⟨.enrolled, trivial, rfl⟩
      | _ =>
          rw [hacceptor] at hparty
          cases hparty
  | some i =>
      obtain ⟨thread, hthread, hlistening⟩ := Option.bind_eq_some_iff.mp hparty
      obtain ⟨hstage, heq⟩ := Option.ite_none_right_eq_some.mp hlistening
      cases heq
      refine ⟨.shaking, trivial, Service.seat_thread hthread ?_⟩
      cases hs : thread.stage with
      | handling | starting | serving | leaving => rfl
      | _ =>
          rw [hs] at hstage
          cases hstage

theorem Sound.authenticated {party : PartyId} {user password : Text} (h : Sound a)
    (hparty : a.service.listening party = some session) :
    Sound { a.observed (.callback party (.authPassword user password)) with
      service := { a.service with
        accounts := a.service.accounts.checkAuth session.address user password } } := by
  obtain ⟨standing, henrolled, hseat⟩ := seat_of_listening hparty
  cases haccepts : a.service.accounts.accepts user password with
  | false =>
      rw [Accounts.checkAuth_refused haccepts]
      have hobserved : a.observed (.callback party (.authPassword user password)) = a := by
        simp [observed, hparty, haccepts]
      rw [hobserved]
      exact h
  | true =>
      have hobserved : a.observed (.callback party (.authPassword user password)) = { a with
          proved := Function.update a.proved session.number
            (a.proved session.number ++ [user]) } := by simp [observed, hparty, haccepts]
      rw [hobserved]
      have hwritten := h.users.write (a := session) user (fun other hother heq =>
        h.tenure.eq_of_seat hother hseat heq)
        (Set.insert_eq_of_mem ((h.tenure.mem_leases_iff hseat).mpr henrolled)).symm
      refine ⟨h.tenure, ?_, h.handshakes, fun number hnumber => ?_, fun other hother => ?_,
        h.acceptorGone, h.threadsGone⟩
      · rw [← Accounts.sessionUsers_checkAuth haccepts] at hwritten
        have hlast : (List.getLast? ∘ Function.update a.proved session.number
            (a.proved session.number ++ [user])) =
              Function.update a.loggedIn session.number (some user) := by
          rw [Function.comp_update, List.getLast?_concat]
          rfl
        rw [← hlast] at hwritten
        exact hwritten
      · have hne : number ≠ session.number := by
          rintro rfl
          exact absurd (h.tenure.number_lt hseat) (Nat.not_lt_of_le hnumber)
        exact (Function.update_of_ne hne _ _).trans (h.unproved number hnumber)
      · -- The acceptor's own session is not waiting while it listens.
        have hne : other.number ≠ session.number := by
          intro heq
          have hother' : a.service.tenure.seat none = some (other, .bare) := by
            rw [Service.seat_none]
            rcases hother with hother | hother <;> rw [show a.service.acceptor = _ from hother] <;> rfl
          obtain rfl := h.tenure.apart none party other .bare session standing hother' hseat (.inr heq)
          rw [hother'] at hseat
          cases hseat
          exact henrolled
        exact (Function.update_of_ne hne _ _).trans (h.waiting other hother)

theorem Sound.noted {hs hs' : HandshakeState} (h : Sound a)
    (hfound : a.service.handshakes session.address = some hs) :
    Sound { a with service := { a.service with
      handshakes := Function.update a.service.handshakes session.address (some hs') } } := by
  refine ⟨h.tenure, h.users, ?_, h.unproved, h.waiting, h.acceptorGone, h.threadsGone⟩
  have hsame : (Option.map fun _ => ()) (some hs') =
      ((Option.map fun _ => ()) ∘ a.service.handshakes) session.address := by
    rw [Function.comp_apply, hfound]
    rfl
  change Mirrors _ ((Option.map fun _ => ()) ∘
    Function.update a.service.handshakes session.address (some hs')) _
  rw [Function.comp_update, hsame, Function.update_eq_self]
  exact h.handshakes

theorem Sound.cleared (h : Sound a) (hphase : a.service.phase = .clearing) :
    Sound { a with service := { a.service with
      phase := .idle, accounts := a.service.accounts.next .stop } } := by
  have hacceptor := h.acceptorGone (by simp [hphase])
  have hthreads := h.threadsGone (by simp [hphase])
  refine ⟨h.tenure, ?_, h.handshakes, h.unproved, h.waiting, fun _ => hacceptor, fun _ => hthreads⟩
  have hgone := Service.leases_of_gone Standing.isEnrolled hacceptor hthreads
  change Mirrors (a.service.tenure.leases Standing.isEnrolled) (fun _ => none) _
  rw [hgone]
  exact Mirrors.empty

theorem Sound.threadsJoined (h : Sound a) (hphase : a.service.phase = .joining)
    (hreturned : a.service.AllReturned) :
    Sound { a with service := { a.service with phase := .clearing, threads := [] } } := by
  have htenure := Service.tenure_threadsJoined .clearing hreturned
  have hacceptor := h.acceptorGone (by simp [hphase])
  refine ⟨?_, ?_, ?_, h.unproved, h.waiting, fun _ => hacceptor, fun _ => rfl⟩
  · exact htenure ▸ h.tenure
  · exact htenure ▸ h.users
  · exact htenure ▸ h.handshakes

theorem Sound.started (h : Sound a) (hphase : a.service.phase = .idle) :
    Sound { a with service := { a.service with phase := .running, acceptor := .head } } := by
  have hacceptor := h.acceptorGone (by simp [hphase])
  have htenure : (a.service.setAcceptor .head).tenure = a.service.tenure :=
    Service.tenure_setAcceptor (by rw [hacceptor]; rfl)
  refine ⟨?_, ?_, ?_, h.unproved, fun session hsession => ?_, fun hmem => ?_, fun hmem => ?_⟩
  · exact htenure ▸ h.tenure
  · exact htenure ▸ h.users
  · exact htenure ▸ h.handshakes
  · rcases hsession with hsession | hsession <;> cases hsession
  · simp at hmem
  · simp at hmem

end Steps

/-- The step lemma. -/
theorem Sound.step (h : Sound a) (hstep : a.step env longWidth event = some b) : Sound b := by
  obtain ⟨s, hs, rfl⟩ := Option.map_eq_some_iff.mp hstep
  obtain ⟨-, hstepped⟩ := Service.stepped hs
  cases hstepped with
  | started hphase => exact h.started hphase
  | flagged hphase =>
      refine ⟨h.tenure, h.users, h.handshakes, h.unproved, h.waiting, fun hmem => ?_, fun hmem => ?_⟩
      · simp at hmem
      · simp at hmem
  | acceptorJoined hphase hfinished =>
      refine ⟨h.tenure, h.users, h.handshakes, h.unproved, h.waiting, fun _ => hfinished,
        fun hmem => ?_⟩
      simp at hmem
  | threadsJoined hphase hreturned => exact h.threadsJoined hphase hreturned
  | cleared hphase => exact h.cleared hphase
  | registered users hevent =>
      rw [observed_of_not_witnesses hevent]
      exact ⟨h.tenure, h.users, h.handshakes, h.unproved, h.waiting, h.acceptorGone, h.threadsGone⟩
  | acceptorMoved stage hseat hgoing hwaiting =>
      exact h.setAcceptor hseat (fun session hsession =>
        h.waiting session (.inl (hwaiting session hsession))) hgoing
  | created address hacceptor hfree => exact h.created hacceptor hfree
  | exchanged session hacceptor => exact h.exchanged hacceptor
  | handedOver session hacceptor => exact h.handedOver hacceptor
  | rejected session hacceptor => exact h.rejected hacceptor
  | dropped session stage hacceptor hstage => exact h.dropped hacceptor hstage
  | entered thread hthread hstage => exact h.entered hthread hstage
  | threadMoved thread stage hthread hbefore hafter hserving hevent =>
      rw [observed_of_not_witnesses hevent]
      exact h.setStage hthread hbefore hafter
  | @lookedUp i thread hthread hstage =>
      have hset : Sound { a with service := a.service.setStage i (.serving
          { ctx := Service.contextOf longWidth a.service.accounts thread.session.address }) } :=
        h.setStage hthread (by rw [hstage]; rfl) rfl
      have hobserved : a.observed (.thread i .lookUp) = { a with
          found := Function.update a.found thread.session.number
            (accountOf a.service.accounts thread.session.address) } := by
        simp [observed, hthread]
      rw [hobserved]
      exact ⟨hset.tenure, hset.users, hset.handshakes, hset.unproved, hset.waiting,
        hset.acceptorGone, hset.threadsGone⟩
  | idled => exact h
  | heard thread w msg hthread hstage => exact h.setStage hthread (by rw [hstage]; rfl) rfl
  | called thread w c next answer after hthread hstage hpending hperform =>
      have henv : Sound { a with service := { a.service with env := after.env } } :=
        ⟨h.tenure, h.users, h.handshakes, h.unproved, h.waiting, h.acceptorGone, h.threadsGone⟩
      exact henv.setStage hthread (by rw [hstage]; rfl) rfl
  | removedHs thread hthread hstage => exact h.removedHs hthread hstage
  | forgotten thread hthread hstage => exact h.forgotten hthread hstage
  | freed thread hthread hstage => exact h.freed hthread hstage
  | authenticated session user password hparty => exact h.authenticated hparty
  | noted session hs hs' hparty hfound hevent =>
      rw [observed_of_not_witnesses hevent]
      exact h.noted hfound
  | missed hevent =>
      rw [observed_of_not_witnesses hevent]
      exact h
  | missing session hparty hreads hnone hevent =>
      rw [observed_of_not_witnesses hevent]
      exact ⟨h.tenure, h.users, h.handshakes, h.unproved, h.waiting, h.acceptorGone, h.threadsGone⟩
  | faulted fault =>
      exact ⟨h.tenure, h.users, h.handshakes, h.unproved, h.waiting, h.acceptorGone, h.threadsGone⟩

end Audited

/-! ## Every session is freed once -/

namespace Service

variable {σ : Type} {s t : Service σ} {env : Environment σ} {longWidth : ℕ} {event : ServiceEvent}

/-- The service is in order under some record of what has come of its
sessions. -/
def Sound (s : Service σ) : Prop := ∃ proved found, Audited.Sound ⟨s, proved, found⟩

theorem sound_fresh (init : σ) : Sound { env := init } := ⟨_, _, Audited.sound_init init⟩

theorem Sound.step (h : s.Sound) (hstep : s.step env longWidth event = some t) : t.Sound := by
  obtain ⟨proved, found, hsound⟩ := h
  have haudited : Audited.step env longWidth ⟨s, proved, found⟩ event =
      some { Audited.observed ⟨s, proved, found⟩ event with service := t } :=
    Option.map_eq_some_iff.mpr ⟨t, hstep, rfl⟩
  exact ⟨_, _, hsound.step haudited⟩

/-- The sessions that the server has an entry for are in use, and a stopped
server has freed every session, and has no entry left. -/
structure InOrder (s : Service σ) : Prop where
  tenure : s.tenure.Sound
  users : ∀ address, s.accounts.sessionUsers address ≠ none → s.InUse address
  handshakes : ∀ address, s.handshakes address ≠ none → s.InUse address
  stopped : s.phase = .idle → s.freed.Perm (List.range s.issued) ∧
    (∀ address, s.accounts.sessionUsers address = none) ∧ ∀ address, s.handshakes address = none

theorem inUse_of_leases {kind : Standing → Prop} {session : Lease SshSession}
    (h : session ∈ s.tenure.leases kind) : s.InUse session.address := by
  obtain ⟨party, standing, hseat, -⟩ := h
  by_contra hfree
  exact vacant_of_not_inUse hfree party session standing hseat rfl

/-- When nobody holds a session, all that were made have ended. -/
theorem freed_perm (h : s.tenure.Sound) (hgone : s.tenure.leases (fun _ => True) = ∅) :
    s.freed.Perm (List.range s.issued) := by
  refine (List.perm_ext_iff_of_nodup h.once List.nodup_range).mpr fun number => ?_
  refine Iff.trans ?_ ((h.accounted number).symm.trans List.mem_range.symm)
  refine (or_iff_left ?_).symm
  rintro ⟨party, session, standing, hseat, -⟩
  have hmem : session ∈ s.tenure.leases fun _ => True := ⟨party, standing, hseat, trivial⟩
  rw [hgone] at hmem
  cases hmem

theorem Sound.inOrder (h : s.Sound) : s.InOrder := by
  obtain ⟨proved, found, hsound⟩ := h
  refine ⟨hsound.tenure, fun address haddress => ?_, fun address haddress => ?_, fun hphase => ?_⟩
  · obtain ⟨session, hsession, rfl⟩ := hsound.users.only address haddress
    exact inUse_of_leases hsession
  · obtain ⟨session, hsession, rfl⟩ := hsound.handshakes.only address (by simpa using haddress)
    exact inUse_of_leases hsession
  · have hphase' : s.phase ∈ [ServerPhase.idle, .clearing] := by simp [hphase]
    have hgone := fun kind => leases_of_gone kind (hsound.acceptorGone (by simp [hphase]))
      (hsound.threadsGone hphase')
    refine ⟨freed_perm hsound.tenure (hgone _), fun address => ?_, fun address => ?_⟩
    · exact hsound.users.eq_none address fun session hsession => by
        rw [hgone] at hsession
        cases hsession
    · have hnone := hsound.handshakes.eq_none address fun session hsession => by
        rw [hgone] at hsession
        cases hsession
      simpa using hnone

/-- In every interleaving of the acceptor, the sessions and `stop()`. -/
theorem sessions_in_order (env : Environment σ) (longWidth : ℕ) (init : σ)
    (events : List ServiceEvent) :
    Always (Service.step env longWidth) InOrder { env := init } events :=
  always_of_invariant_along (fun _ _ _ h _ hstep => Sound.step h hstep) (fun _ h => h.inOrder)
    (sound_fresh init) (along_of_forall (fun _ _ => trivial) _ _)

end Service

end MockServices.Sftp
