import MockServices.Sftp.Disk
import MockServices.Sftp.Sessions

/-!
# What a session may do

What `lookup_user` finds goes into the context that the handlers check.
Whatever other sessions, the acceptor and the registry do in between, a
session works under an account of a name that it has logged in with, and
one without an account gets nothing done. The account of the name may have
been replaced between the log-in and `lookup_user`.
-/

namespace MockServices.Sftp

open Foundations Foundations.Program

/-- The calls of a handler that refuses. -/
def Call.harmless : Call → Prop
  | .os .realpath | .os .calloc | .os (.reply (.status _ _)) => True
  | .logActivity _ _ _ _ | .handle _ => True
  | _ => False

theorem harmless_housekeeping : Housekeeping Call.harmless := by
  constructor <;> simp [Call.harmless]

/-- What a session may call under the account that was found for it. -/
def Call.allowed (account : Option User) (c : Call) : Prop :=
  c.harmless ∨ ∃ r, account = some r ∧ (c.keepsFiles ∨ canWrite r.perm = true)

/-- A session without an account has no handle. -/
def Relied (account : Option User) : (c : Call) → c.Answer → Prop
  | .handle _, answer => account = none → answer = none
  | _, _ => True

section Handlers

variable {account : Option User} {ctx : SftpContext} {msg : SftpClientMessage}

theorem not_resolved (hroot : ctx.root = []) {rely : (c : Call) → c.Answer → Prop} {path full : Text}
    {mustExist : Bool} : ¬ Resolved rely ctx path mustExist full := by
  rintro ⟨realpath, -, rfl, hfull⟩
  refine hfull ?_
  rw [resolvePath, if_pos hroot]

theorem makes_withHandle_none {guar : Call → Prop} (hk : Housekeeping guar)
    {next : ObjectId → Handler Unit} : Makes (Relied none) guar (withHandle msg next) := by
  refine makes_call_bind (hk.handle _) fun info hinfo => ?_
  obtain rfl : info = none := hinfo rfl
  exact makes_replyStatus hk _ _

/-- Every handler refuses a session without a root, a permission and a handle. -/
theorem processSftp_harmless (hroot : ctx.root = []) (hperm : ctx.perm = SftpPermission.none) :
    Makes (Relied none) Call.harmless (processSftp ctx msg) := by
  have hk : Housekeeping Call.harmless := harmless_housekeeping
  have hwrite : ∀ {P : Prop}, canWrite ctx.perm = true → P := by
    intro P h
    rw [hperm] at h
    exact absurd h (by decide)
  have hread : ∀ {P : Prop}, canRead ctx.perm = true → P := by
    intro P h
    rw [hperm] at h
    exact absurd h (by decide)
  unfold processSftp
  cases msg.type with
  | «open» =>
      change Makes _ _ (sftpDoOpen ctx msg)
      unfold sftpDoOpen
      split
      · exact makes_refuse hk _ _ _ _
      · exact makes_withResolved hk fun full hfull => absurd hfull (not_resolved hroot)
  | close | read | readdir | fstat | fsetstat => exact makes_withHandle_none hk
  | write => exact makes_sftpDoWrite hk hwrite
  | opendir =>
      change Makes _ _ (sftpDoOpendir ctx msg)
      unfold sftpDoOpendir
      rw [if_neg fun h => hread h]
      exact makes_refuse hk _ _ _ _
  | stat | lstat =>
      exact makes_withResolved hk fun full hfull => absurd hfull (not_resolved hroot)
  | setstat => exact makes_sftpDoSetstat hk
  | mkdir => exact makes_sftpDoMkdir hk fun _ h => hwrite h
  | rmdir => exact makes_sftpDoRmdir hk fun _ h => hwrite h
  | remove => exact makes_sftpDoRemove hk fun _ h => hwrite h
  | rename => exact makes_sftpDoRename hk fun _ _ _ h => hwrite h
  | realpath => exact makes_sftpDoRealpath hk fun h => hread h
  | other => exact makes_replyStatus hk _ _

/-- The context that `lookup_user` has left for the account it found. -/
def SftpContext.BelongsTo (ctx : SftpContext) : Option User → Prop
  | none => ctx.root = [] ∧ ctx.perm = SftpPermission.none
  | some r => ctx.username = r.name ∧ ctx.root = r.root ∧ ctx.perm = r.perm

theorem processSftp_allowed (hctx : ctx.BelongsTo account) :
    Makes (Relied account) (Call.allowed account) (processSftp ctx msg) := by
  cases account with
  | none =>
      obtain ⟨hroot, hperm⟩ := hctx
      exact (processSftp_harmless hroot hperm).mono fun c hc => .inl hc
  | some r =>
      obtain ⟨-, -, hperm⟩ := hctx
      cases hwrite : canWrite r.perm with
      | true =>
          exact ensures_of_forall _ (fun c => .inr ⟨r, rfl, .inr hwrite⟩) fun _ => trivial
      | false =>
          have hquiet : MakesNoChange (processSftp ctx msg) :=
            processSftp_makesNoChange (.inl (by rw [hperm, hwrite]))
          exact (hquiet.mono fun c hc => .inr ⟨r, rfl, .inl hc⟩).of_rely fun _ _ _ => trivial

end Handlers

/-! ## One session -/

/-- A session that is being served works under its account, and has logged
in with the name of it. -/
structure Serving.Entitled (account : Option User) (proved : List Text) (w : Serving) : Prop where
  context : w.ctx.BelongsTo account
  own : ∀ r, account = some r → r.name ∈ proved
  handles : account = none → w.table = fun _ => none
  calls : Makes (Relied account) (Call.allowed account) w.pending

section Session

variable {σ : Type} {env : Environment σ} {account : Option User} {proved : List Text} {w : Serving}

theorem relied_of_perform {e : σ} {c : Call} {answer : c.Answer} {after : World σ}
    (hhandles : account = none → w.table = fun _ => none)
    (h : perform env ⟨e, w.table, w.objects⟩ c = .ok (answer, after)) : Relied account c answer := by
  cases c with
  | handle slot =>
      intro haccount
      obtain ⟨rfl, -⟩ := Prod.mk.inj (Except.ok.inj h)
      rw [hhandles haccount]
      exact Option.bind_fun_none slot
  | _ => trivial

theorem table_of_harmless {e : σ} {c : Call} {answer : c.Answer} {after : World σ} (hc : c.harmless)
    (h : perform env ⟨e, w.table, w.objects⟩ c = .ok (answer, after)) : after.table = w.table := by
  cases c with
  | os c =>
      obtain ⟨-, rfl⟩ := Prod.mk.inj (Except.ok.inj h)
      rfl
  | logActivity | handle =>
      obtain ⟨-, rfl⟩ := Prod.mk.inj (Except.ok.inj h)
      rfl
  | _ => exact hc.elim

theorem Serving.Entitled.heard (h : w.Entitled account proved) (msg : SftpClientMessage) :
    Serving.Entitled account proved { w with pending := processSftp w.ctx msg } :=
  ⟨h.context, h.own, h.handles, processSftp_allowed h.context⟩

/-- The step lemma: a call leaves the session with what its account allows. -/
theorem Serving.Entitled.called {e : σ} {c : Call} {next : c.Answer → Handler Unit}
    {answer : c.Answer} {after : World σ} (h : w.Entitled account proved)
    (hpending : w.pending = .call c next)
    (hperform : perform env ⟨e, w.table, w.objects⟩ c = .ok (answer, after)) :
    Serving.Entitled account proved
      { w with table := after.table, objects := after.objects, pending := next answer } := by
  obtain ⟨hallowed, hnext⟩ : Makes (Relied account) (Call.allowed account) (.call c next) :=
    hpending ▸ h.calls
  refine ⟨h.context, h.own, fun haccount => ?_, hnext answer (relied_of_perform h.handles hperform)⟩
  rcases hallowed with hharmless | ⟨r, hr, -⟩
  · exact (table_of_harmless hharmless hperform).trans (h.handles haccount)
  · rw [haccount] at hr
    cases hr

theorem belongsTo_contextOf (longWidth : ℕ) (a : Accounts) (session : SshSession) :
    (Service.contextOf longWidth a session).BelongsTo (accountOf a session) := by
  unfold Service.contextOf lookupUser accountOf
  cases a.sessionUsers session with
  | none => exact ⟨rfl, rfl⟩
  | some username =>
      rw [Option.bind_some]
      dsimp only
      cases hfound : a.users.find? fun configuredUser => configuredUser.name = username with
      | none => exact ⟨rfl, rfl⟩
      | some r =>
          have hname := List.find?_some hfound
          exact ⟨(of_decide_eq_true hname).symm, rfl, rfl⟩

theorem sessionUsers_of_accountOf {a : Accounts} {session : SshSession} {r : User}
    (h : accountOf a session = some r) : a.sessionUsers session = some r.name := by
  obtain ⟨username, husername, hfound⟩ := Option.bind_eq_some_iff.mp h
  have hname := List.find?_some hfound
  rw [husername, of_decide_eq_true hname]

end Session

/-! ## All sessions -/

namespace Audited

variable {σ : Type} {a b : Audited σ} {env : Environment σ} {longWidth : ℕ} {event : ServiceEvent}
  {i : ℕ} {thread : SessionThread} {stage : ThreadStage}

def Entitled (a : Audited σ) : Prop :=
  ∀ (i : ℕ) (thread : SessionThread) (w : Serving),
    a.service.threads[i]? = some thread → thread.stage = .serving w →
      w.Entitled (a.found thread.session.number) (a.proved thread.session.number)

/-- For a session that calls more than a refusal does an account has been
found, under a name that the session has logged in with. The context is
that account's, and a call that may change a file is made only if the
account has the write permission. -/
def Authorised (a : Audited σ) : ServiceEvent → Prop
  | .thread i .call => ∀ (thread : SessionThread) (w : Serving) (c : Call)
      (next : c.Answer → Handler Unit), a.service.threads[i]? = some thread →
      thread.stage = .serving w → w.pending = .call c next →
      c.harmless ∨ ∃ r, a.found thread.session.number = some r ∧
        r.name ∈ a.proved thread.session.number ∧ w.ctx.BelongsTo (some r) ∧
        (c.keepsFiles ∨ canWrite r.perm = true)
  | _ => True

theorem Entitled.authorised (h : Entitled a) (event : ServiceEvent) : Authorised a event := by
  cases event with
  | thread i action =>
      cases action with
      | call =>
          intro thread w c next hthread hstage hpending
          have hw := h i thread w hthread hstage
          obtain ⟨hallowed, -⟩ : Makes _ _ (.call c next) := hpending ▸ hw.calls
          rcases hallowed with hharmless | ⟨r, hr, hwrite⟩
          · exact .inl hharmless
          · have hcontext := hw.context
            rw [hr] at hcontext
            exact .inr ⟨r, hr, hw.own r hr, hcontext, hwrite⟩
      | _ => trivial
  | _ => trivial

/-- Sessions that are served go on being served, and what they have proved
stays proved. -/
theorem Entitled.same (h : Entitled a)
    (hthreads : ∀ (i : ℕ) (thread : SessionThread) (w : Serving),
      b.service.threads[i]? = some thread → thread.stage = .serving w →
        a.service.threads[i]? = some thread)
    (hfound : b.found = a.found) (hproved : ∀ n name, name ∈ a.proved n → name ∈ b.proved n) :
    Entitled b := by
  intro i thread w hthread hstage
  have hw := h i thread w (hthreads i thread w hthread hstage) hstage
  rw [hfound]
  exact ⟨hw.context, fun r hr => hproved _ _ (hw.own r hr), hw.handles, hw.calls⟩

theorem getElem?_setStage {s : Service σ} {j : ℕ} {other : SessionThread}
    (hother : (s.setStage i stage).threads[j]? = some other) :
    (∃ thread, s.threads[i]? = some thread ∧ j = i ∧ other = { thread with stage }) ∨
      j ≠ i ∧ s.threads[j]? = some other := by
  change (s.threads.modify i _)[j]? = _ at hother
  rw [List.getElem?_modify] at hother
  by_cases hj : i = j
  · subst hj
    obtain ⟨thread, hthread, rfl⟩ := Option.map_eq_some_iff.mp hother
    exact .inl ⟨thread, hthread, rfl, by rw [if_pos rfl]⟩
  · refine .inr ⟨Ne.symm hj, ?_⟩
    simpa [hj] using hother

theorem Entitled.setStage {s : Service σ} (h : Entitled a) (hthread : a.service.threads[i]? = some thread)
    (hthreads : s.threads = a.service.threads)
    (hstage : ∀ w, stage = .serving w →
      w.Entitled (a.found thread.session.number) (a.proved thread.session.number)) :
    Entitled { a with service := s.setStage i stage } := by
  intro j other w hother hserving
  rcases getElem?_setStage hother with ⟨thread', hthread', rfl, rfl⟩ | ⟨-, hother⟩
  · rw [hthreads, hthread] at hthread'
    obtain rfl := Option.some.inj hthread'
    exact hstage w hserving
  · rw [hthreads] at hother
    exact h j other w hother hserving

/-- The account is one that the log-in of the session itself belongs to. -/
theorem Entitled.lookedUp (h : Entitled a) (hsound : Sound a)
    (hthread : a.service.threads[i]? = some thread) (hstage : thread.stage = .lookingUp) :
    Entitled { a with
      service := a.service.setStage i (.serving
        { ctx := Service.contextOf longWidth a.service.accounts thread.session.address })
      found := Function.update a.found thread.session.number
        (accountOf a.service.accounts thread.session.address) } := by
  have hstanding : thread.stage.standing = some .shaking := by rw [hstage]; rfl
  have hseat := Service.seat_thread hthread hstanding
  intro j other w hother hserving
  rcases getElem?_setStage hother with ⟨thread', hthread', rfl, rfl⟩ | ⟨hj, hother⟩
  · obtain rfl : thread = thread' := Option.some.inj (hthread.symm.trans hthread')
    cases hserving
    dsimp only
    rw [Function.update_self]
    refine ⟨belongsTo_contextOf longWidth _ _, fun r hr => ?_, fun _ => rfl, trivial⟩
    have hown := hsound.users.own thread.session ((hsound.tenure.mem_leases_iff hseat).mpr trivial)
    rw [sessionUsers_of_accountOf hr] at hown
    exact List.mem_of_getLast? hown.symm
  · have hstanding' : other.stage.standing = some .shaking := by rw [hserving]; rfl
    have hseat' := Service.seat_thread hother hstanding'
    have hnumber : other.session.number ≠ thread.session.number := by
      intro heq
      have hsame := hsound.tenure.apart _ _ _ _ _ _ hseat' hseat (.inr heq)
      exact hj (Option.some.inj hsame)
    dsimp only
    rw [Function.update_of_ne hnumber]
    exact h j other w hother hserving

theorem threads_makeHs (s : Service σ) (session : SshSession) :
    (s.makeHs session).threads = s.threads := by
  unfold Service.makeHs
  split <;> rfl

theorem mem_proved_observed (n : ℕ) (name : Text) (h : name ∈ a.proved n) :
    name ∈ (a.observed event).proved n := by
  unfold observed
  split
  · split
    · exact h
    · next session hsession =>
        split
        · by_cases hn : n = session.number
          · subst hn
            simp [h]
          · simpa [hn] using h
        · exact h
  · split <;> exact h
  · exact h

/-- The step lemma. -/
theorem Entitled.step (h : Entitled a) (hsound : Sound a)
    (hstep : a.step env longWidth event = some b) : Entitled b := by
  obtain ⟨s, hs, rfl⟩ := Option.map_eq_some_iff.mp hstep
  obtain ⟨-, hstepped⟩ := Service.stepped hs
  -- A step that leaves alone what is served.
  have hsame : ∀ {c : Audited σ}, c.service.threads = a.service.threads → c.found = a.found →
      (∀ n name, name ∈ a.proved n → name ∈ c.proved n) → Entitled c :=
    fun hthreads hfound hproved => h.same (fun _ _ _ hthread _ => hthreads ▸ hthread) hfound hproved
  cases hstepped with
  | started | flagged | acceptorJoined | cleared | acceptorMoved | created | exchanged | rejected
  | dropped => exact hsame rfl rfl fun _ _ hname => hname
  | threadsJoined hphase hreturned =>
      refine h.same (fun j other w hother _ => ?_) rfl fun _ _ hname => hname
      cases hother
  | registered users hevent =>
      rw [observed_of_not_witnesses hevent]
      exact hsame rfl rfl fun _ _ hname => hname
  | handedOver session hacceptor =>
      refine h.same (fun j other w hother hserving => ?_) rfl fun _ _ hname => hname
      change (a.service.threads ++ [⟨session, .spawned⟩])[j]? = _ at hother
      rcases lt_or_ge j a.service.threads.length with hj | hj
      · rwa [List.getElem?_append_left hj] at hother
      · rw [List.getElem?_append_right hj, List.getElem?_singleton] at hother
        obtain ⟨-, heq⟩ := Option.ite_none_right_eq_some.mp hother
        rw [← Option.some.inj heq] at hserving
        cases hserving
  | entered thread hthread hstage =>
      exact h.setStage hthread (threads_makeHs _ _) fun w hw => by cases hw
  | threadMoved thread stage hthread hbefore hafter hserving hevent =>
      rw [observed_of_not_witnesses hevent]
      exact h.setStage hthread rfl fun w hw => absurd hw (hserving w)
  | @lookedUp i thread hthread hstage =>
      have hobserved : a.observed (.thread i .lookUp) = { a with
          found := Function.update a.found thread.session.number
            (accountOf a.service.accounts thread.session.address) } := by
        simp [observed, hthread]
      rw [hobserved]
      exact h.lookedUp hsound hthread hstage
  | idled => exact h
  | @heard i polled thread w msg hthread hstage =>
      refine h.setStage hthread rfl fun w' hw' => ?_
      cases hw'
      exact (h i thread w hthread hstage).heard msg
  | @called i thread w c next answer after hthread hstage hpending hperform =>
      refine h.setStage hthread rfl fun w' hw' => ?_
      cases hw'
      exact (h i thread w hthread hstage).called hpending hperform
  | removedHs thread hthread hstage =>
      exact h.setStage hthread rfl fun w hw => by cases hw
  | forgotten thread hthread hstage =>
      exact h.setStage hthread rfl fun w hw => by cases hw
  | freed thread hthread hstage =>
      exact h.setStage hthread rfl fun w hw => by cases hw
  | authenticated session user password hparty =>
      refine hsame rfl ?_ fun n name hname => mem_proved_observed n name hname
      dsimp only [observed]
      rw [hparty]
      dsimp only
      split <;> rfl
  | noted session hs hs' hparty hfound hevent =>
      rw [observed_of_not_witnesses hevent]
      exact hsame rfl rfl fun _ _ hname => hname
  | missed hevent | missing session hparty hreads hnone hevent =>
      rw [observed_of_not_witnesses hevent]
      exact hsame rfl rfl fun _ _ hname => hname
  | faulted fault => exact hsame rfl rfl fun _ _ hname => hname

/-- The log-in that the server has for a session is the last name that the
session itself has given the password of. -/
def LoginsOwn (a : Audited σ) : Prop :=
  ∀ party session, a.service.listening party = some session →
    a.service.accounts.sessionUsers session.address = a.loggedIn session.number

theorem Sound.loginsOwn (h : Sound a) : LoginsOwn a := by
  intro party session hparty
  obtain ⟨standing, henrolled, hseat⟩ := seat_of_listening hparty
  exact h.users.own session ((h.tenure.mem_leases_iff hseat).mpr henrolled)

/-- In every interleaving, also when a session is given the address of an
earlier one. -/
theorem logins_own (env : Environment σ) (longWidth : ℕ) (init : σ)
    (events : List ServiceEvent) :
    Always (Audited.step env longWidth) LoginsOwn ⟨{ env := init }, fun _ => [], fun _ => none⟩
      events :=
  always_of_invariant_along (fun _ _ _ h _ hstep => Sound.step h hstep) (fun _ h => h.loginsOwn)
    (sound_init init) (along_of_forall (fun _ _ => trivial) _ _)

/-- In every interleaving each session acts under an account of a name that
it has logged in with itself, whatever address it was given and whatever
becomes of the other sessions. -/
theorem calls_authorised (env : Environment σ) (longWidth : ℕ) (init : σ)
    (events : List ServiceEvent) :
    Along (Audited.step env longWidth) Authorised ⟨{ env := init }, fun _ => [], fun _ => none⟩
      events := by
  refine along_of_invariant_along (P := fun _ _ => True)
    (I := fun a : Audited σ => Sound a ∧ Entitled a)
    (fun a event b h _ hstep => ⟨h.1.step hstep, h.2.step h.1 hstep⟩)
    (fun a event h _ => h.2.authorised event) ⟨sound_init init, fun i thread w hthread => ?_⟩
    (along_of_forall (fun _ _ => trivial) _ _)
  cases hthread

end Audited

end MockServices.Sftp
