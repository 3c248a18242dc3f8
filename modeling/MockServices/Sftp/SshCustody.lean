import MockServices.Sftp.SshObjects

/-!
# Who frees the binds and the keys

No call loses an object of libssh or frees one twice, whatever it throws.
What `start()` does wrong is to read errors: it asks a bind that it has just
reset why an option was refused, and so such a refusal is never reported.
-/

namespace MockServices.Sftp

open Foundations

namespace SshOwner

variable {phase : OwnerPhase} {extra : List ℕ} {owns : Option SshBind → Option ℕ → Prop}
  {s : SshOwner}

/-- The server is in `phase` without an acceptor; it holds what `owns` says,
and the call at hand holds `extra`. -/
structure Resting (phase : OwnerPhase) (extra : List ℕ) (owns : Option SshBind → Option ℕ → Prop)
    (s : SshOwner) : Prop where
  phase_eq : s.phase = phase
  acceptor : s.acceptor = none
  port : s.port = 0
  accounts : s.ssh.Accounts (extra ++ s.held)
  owned : owns s.bind s.hostkey

/-- A bind that has been made and not used. -/
def Fresh (bind : Option SshBind) : Prop := ∃ id, bind = some { id }

/-- There is no bind, or one that has not been used. -/
def Unused (bind : Option SshBind) : Prop := bind = none ∨ Fresh bind

/-- A call has thrown as its answers were not what it wants. -/
def Throws (ok : Bool) (rest : SshOwner → Prop) (e : SshFailure) (s : SshOwner) : Prop :=
  ok = false ∧ e ≠ .invalidRead ∧ rest s

theorem Throws.mono {ok ok' : Bool} {rest rest' : SshOwner → Prop} {e : SshFailure}
    (h : Throws ok rest e s) (hok : ok = false → ok' = false) (hrest : rest s → rest' s) :
    Throws ok' rest' e s :=
  ⟨hok h.1, h.2.1, hrest h.2.2⟩

theorem Resting.mono {owns' : Option SshBind → Option ℕ → Prop} (h : Resting phase extra owns s)
    (howns : ∀ b k, owns b k → owns' b k) : Resting phase extra owns' s :=
  { h with owned := howns _ _ h.owned }

/-- `reset()` frees what the bind owns. -/
theorem Resting.resetBind (h : Resting phase [] owns s) :
    Resting phase [] (fun b k => b = none ∧ ∃ b', owns b' k) s.resetBind :=
  { h with
    accounts := Pool.Accounts.freeAll h.accounts
    owned := ⟨rfl, s.bind, h.owned⟩ }

theorem Resting.dropHostkey (h : Resting phase extra owns s) :
    Resting phase extra (fun b k => k = none ∧ ∃ k', owns b k') s.dropHostkey := by
  have hperm : (extra ++ s.held).Perm (s.hostkey.toList ++ (extra ++ s.dropHostkey.held)) := by
    have hheld : s.dropHostkey.held = s.bound := List.append_nil _
    rw [hheld, held, ← List.append_assoc]
    exact List.perm_append_comm
  exact { h with
    accounts := Pool.Accounts.freeAll (h.accounts.perm hperm)
    owned := ⟨rfl, s.hostkey, h.owned⟩ }

theorem meets_require {pre : SshOwner → Prop} (ok : Bool) (what : Text) :
    Meets pre (require ok (.thrown what)) (fun _ s => ok = true ∧ pre s) (Throws ok pre) := by
  apply (Meets.require ok _).mono (fun _ h => h) (fun _ _ h => h)
  rintro e s ⟨hok, rfl, hs⟩
  exact ⟨hok, nofun, hs⟩

theorem meets_newObject {escape : SshFailure → SshOwner → Prop} :
    Meets (Resting phase extra owns) newObject (fun id => Resting phase (id :: extra) owns)
      escape :=
  fun _ hs => { hs with accounts := hs.accounts.alloc }

/-- A fresh bind comes in where there was none. -/
theorem meets_newBind {keyed : Option ℕ → Prop} (ok : Bool) :
    Meets (Resting phase [] fun b k => b = none ∧ keyed k) (newBind ok)
      (fun _ s => ok = true ∧ Resting phase [] (fun b k => Fresh b ∧ keyed k) s)
      (Throws ok (Resting phase [] fun b k => b = none ∧ keyed k)) := by
  apply (meets_require ok _).bind
  intro _
  apply Meets.given
  intro hok
  apply meets_newObject.bind
  intro id
  apply Meets.modify
  intro s hs
  have hbound : s.bound = [] := by rw [bound, hs.owned.1]; rfl
  have hheld : s.held = s.hostkey.toList := by rw [held, hbound]; rfl
  have hacc : s.ssh.Accounts ([id] ++ s.hostkey.toList) := hheld ▸ hs.accounts
  refine ⟨hok, { hs with accounts := ?_, owned := ⟨⟨id, rfl⟩, hs.owned.2⟩ }⟩
  change (s.ssh.freeAll s.bound).Accounts ([id] ++ s.hostkey.toList)
  rw [hbound]
  exact hacc

theorem meets_generateKey (ok : Bool) {escape : SshFailure → SshOwner → Prop} :
    Meets (Resting phase extra owns) (generateKey ok)
      (fun raw s => raw.isSome = ok ∧ Resting phase (raw.toList ++ extra) owns s) escape := by
  cases ok with
  | true =>
      apply meets_newObject.bind
      intro raw
      exact Meets.pure fun s hs => ⟨rfl, hs⟩
  | false => exact Meets.pure fun s hs => ⟨rfl, hs⟩

theorem meets_takeHostkey (raw : Option ℕ) :
    Meets (Resting phase raw.toList owns) (takeHostkey raw)
      (fun _ s => raw.isSome = true ∧ Resting phase [] (fun b k => k.isSome ∧ ∃ k', owns b k') s)
      (Throws raw.isSome (Resting phase [] owns)) := by
  cases raw with
  | none => exact Meets.throw fun s hs => ⟨rfl, nofun, hs⟩
  | some raw =>
      apply Meets.modify
      intro s hs
      have hdrop := hs.dropHostkey
      have hperm : ([raw] ++ s.dropHostkey.held).Perm (s.bound ++ [raw]) := by
        have hheld : s.dropHostkey.held = s.bound := List.append_nil _
        rw [hheld]
        exact List.perm_append_comm
      exact ⟨rfl, { hdrop with
        accounts := hdrop.accounts.perm hperm
        owned := ⟨rfl, hdrop.owned.2⟩ }⟩

/-- The context is freed on every way out, and the key is the server's. -/
theorem meets_newHostkey (answers : KeyAnswers) :
    Meets (Resting phase [] owns) (newHostkey answers)
      (fun _ s => (answers.context && answers.generate) = true ∧
        Resting phase [] (fun b k => k.isSome ∧ ∃ k', owns b k') s)
      (Throws (answers.context && answers.generate) (Resting phase [] owns)) := by
  have hthrows : ∀ e s, Throws answers.context (Resting phase [] owns) e s →
      Throws (answers.context && answers.generate) (Resting phase [] owns) e s :=
    fun e s h => h.mono (fun hno => by rw [hno]; rfl) id
  apply ((meets_require answers.context _).mono (fun _ h => h) (fun _ _ h => h) hthrows).bind
  intro _
  apply Meets.given
  intro hcontext
  apply meets_newObject.bind
  intro pk
  apply (meets_generateKey answers.generate).bind
  intro raw
  apply Meets.given
  intro hraw
  apply Meets.modify_bind (Resting phase raw.toList owns) fun s hs => ?_
  · rw [hcontext, Bool.true_and, ← hraw]
    exact meets_takeHostkey raw
  · have hperm : (raw.toList ++ [pk] ++ s.held).Perm (pk :: (raw.toList ++ s.held)) := by
      rw [List.append_assoc]
      exact List.perm_middle
    exact { hs with accounts := Pool.Accounts.free (hs.accounts.perm hperm) }

/-- The bind has its key, and the server has given it up. -/
def Keyed (listening : Bool) (bind : Option SshBind) (hostkey : Option ℕ) : Prop :=
  (∃ id key, bind = some ⟨id, some key, listening⟩) ∧ hostkey = none

/-- The server at rest, and the server while it listens. The acceptor has
been joined when the bind is reset. -/
inductive Sound (s : SshOwner) : Prop
  | void (hphase : s.phase = .unborn ∨ s.phase = .destroyed) (hheld : s.held = [])
      (h : Resting s.phase [] (fun b _ => Unused b) s)
  | rest (h : Resting .idle [] (fun b _ => Unused b) s)
  | up (hphase : s.phase = .running ∨ s.phase = .joining) (haccounts : s.ssh.Accounts s.held)
      (h : Keyed true s.bind s.hostkey)
  | closing (hphase : s.phase = .resetting) (hacceptor : s.acceptor = none)
      (haccounts : s.ssh.Accounts s.held) (h : Keyed true s.bind s.hostkey)

/-- The call has read where it must not exactly when `invalid` says so. -/
def Reads (invalid : Bool) (e : SshFailure) (s : SshOwner) : Prop :=
  (e = .invalidRead ↔ invalid = true) ∧ Sound s

/-- A bind that refuses an option is reset, and then asked why. -/
theorem meets_setOption (name : Text) (ok : Bool) (error : Option Text) :
    Meets (Resting .idle [] owns) (setOption name ok error)
      (fun _ s => ok = true ∧ Resting .idle [] owns s)
      (fun e s => ok = false ∧ e = .invalidRead ∧ Sound s) := by
  cases ok with
  | true => exact Meets.pure fun s hs => ⟨rfl, hs⟩
  | false =>
      intro s hs
      exact ⟨rfl, rfl, Sound.rest (hs.resetBind.mono fun b k h => .inl h.1)⟩

theorem Resting.importHostkey (h : Resting .idle [] (fun b k => Fresh b ∧ k.isSome) s) :
    Resting .idle [] (Keyed false) s.importHostkey := by
  obtain ⟨⟨id, hbind⟩, hkey⟩ := h.owned
  obtain ⟨key, hkey⟩ := Option.isSome_iff_exists.mp hkey
  have himport :
      s.importHostkey = { s with bind := some ⟨id, some key, false⟩, hostkey := none } := by
    rw [SshOwner.importHostkey, hbind, hkey]
    rfl
  have hheld : s.held = s.importHostkey.held := by
    rw [himport, held, bound, hbind, hkey]
    rfl
  have haccounts : s.ssh.Accounts s.importHostkey.held := hheld ▸ h.accounts
  rw [himport] at haccounts ⊢
  exact { h with accounts := haccounts, owned := ⟨⟨id, key, rfl⟩, rfl⟩ }

theorem meets_importKey (ok : Bool) (error : Option Text) :
    Meets (Resting .idle [] fun b k => Fresh b ∧ k.isSome) (importKey ok error)
      (fun _ s => ok = true ∧ Resting .idle [] (Keyed false) s)
      (fun e s => ok = false ∧ e = .invalidRead ∧ Sound s) := by
  intro s hs
  obtain ⟨key, hkey⟩ := Option.isSome_iff_exists.mp hs.owned.2
  rw [importKey, hkey]
  refine (meets_setOption _ ok error).bind (fun _ => ?_) s hs
  apply Meets.given
  intro hok
  apply Meets.modify
  intro s hs
  exact ⟨hok, hs.importHostkey⟩

/-- What `ssh_bind_listen` fails with is read where it may be gone. -/
theorem meets_listen (outlives ok : Bool) (error : Option Text) :
    Meets (Resting .idle [] (Keyed false)) (listen outlives ok error)
      (fun _ s => ok = true ∧ Resting .idle [] (Keyed true) s)
      (fun e s => ok = false ∧ Reads (!outlives) e s) := by
  cases ok with
  | true =>
      apply Meets.modify
      intro s hs
      obtain ⟨⟨id, key, hbind⟩, hkey⟩ := hs.owned
      have haccounts : s.ssh.Accounts (bound { s with bind := some ⟨id, some key, true⟩ } ++
          s.hostkey.toList) := by
        have h := hs.accounts
        rw [List.nil_append, held, bound, hbind] at h
        exact h
      rw [hbind]
      exact ⟨rfl, { hs with accounts := haccounts, owned := ⟨⟨id, key, rfl⟩, hkey⟩ }⟩
  | false =>
      intro s hs
      obtain ⟨⟨id, key, hbind⟩, hkey⟩ := hs.owned
      have hreset : Sound s.resetBind := Sound.rest (hs.resetBind.mono fun b k h => .inl h.1)
      have hget : getError error s = .ok error s := by rw [getError, hbind]
      have hlisten : listen outlives false error s =
          .error (if outlives then
              .thrown (txt "ssh_bind_listen failed: " ++ error.getD (txt "unknown error"))
            else .invalidRead) s.resetBind := by
        change EStateM.bind (getError error) _ s = _
        rw [EStateM.bind, hget]
        cases outlives <;> rfl
      rw [hlisten]
      cases outlives with
      | true => exact ⟨rfl, iff_of_false nofun nofun, hreset⟩
      | false => exact ⟨rfl, iff_of_true rfl rfl, hreset⟩

/-- The server runs and has no acceptor yet. -/
def Launched (s : SshOwner) : Prop :=
  s.phase = .running ∧ s.ssh.Accounts s.held ∧ Keyed true s.bind s.hostkey

theorem meets_readPort (sockname : Option ℕ) :
    Meets (Resting .idle [] (Keyed true)) (readPort sockname) (fun _ => Launched)
      (Reads false) := by
  cases sockname with
  | none =>
      intro s hs
      exact ⟨iff_of_false nofun nofun, Sound.rest (hs.resetBind.mono fun b k h => .inl h.1)⟩
  | some port =>
      apply Meets.modify
      intro s hs
      exact ⟨rfl, hs.accounts, hs.owned⟩

theorem meets_startThread (ok : Bool) :
    Meets Launched (startThread ok) (fun _ => Sound) (Reads false) := by
  cases ok with
  | true =>
      apply Meets.modify
      intro s hs
      exact Sound.up (.inl hs.1) hs.2.1 hs.2.2
  | false =>
      apply Meets.throw
      intro s hs
      exact ⟨iff_of_false nofun nofun, Sound.up (.inl hs.1) hs.2.1 hs.2.2⟩

/-- Whatever stops `start()` on the way, nothing is lost, and only refused
options and the error of the bind are read wrongly. -/
theorem meets_openBind (outlives : Bool) (answers : StartAnswers) :
    Meets (Resting .idle [] fun b k => Fresh b ∧ k.isSome) (openBind outlives answers)
      (fun _ s => answers.accepted outlives = true ∧ Sound s)
      (Reads (!answers.accepted outlives)) := by
  have hrefused : ∀ ok, (ok = false → answers.accepted outlives = false) → ∀ e s,
      ok = false ∧ e = .invalidRead ∧ Sound s → Reads (!answers.accepted outlives) e s := by
    rintro ok hok e s ⟨hno, he, hs⟩
    exact ⟨iff_of_true he (by rw [hok hno]; rfl), hs⟩
  apply ((meets_setOption _ answers.bindAddr _).mono (fun _ h => h) (fun _ _ h => h)
    (hrefused _ fun h => by simp [StartAnswers.accepted, h])).bind
  intro _
  apply Meets.given
  intro haddr
  apply ((meets_setOption _ answers.bindPort _).mono (fun _ h => h) (fun _ _ h => h)
    (hrefused _ fun h => by simp [StartAnswers.accepted, h])).bind
  intro _
  apply Meets.given
  intro hport
  apply ((meets_importKey answers.importKey _).mono (fun _ h => h) (fun _ _ h => h)
    (hrefused _ fun h => by simp [StartAnswers.accepted, h])).bind
  intro _
  apply Meets.given
  intro himport
  have haccepted : answers.accepted outlives = (answers.listen || outlives) := by
    simp [StartAnswers.accepted, haddr, hport, himport]
  rw [haccepted]
  apply ((meets_listen outlives answers.listen _).mono (fun _ h => h) (fun _ _ h => h)
    fun e s h => ?_).bind
  · intro _
    apply Meets.given
    intro hlisten
    rw [hlisten]
    apply (meets_readPort answers.sockname).bind
    intro _
    exact (meets_startThread answers.thread).mono (fun _ h => h) (fun _ _ h => ⟨rfl, h⟩)
      fun _ _ h => h
  · rw [h.1, Bool.false_or]
    exact h.2

theorem meets_ensureBind {has hasKey : Bool} (ok : Bool) :
    Meets (Resting .idle [] fun b k => Unused b ∧ b.isSome = has ∧ k.isSome = hasKey)
      (ensureBind ok)
      (fun _ s => (has || ok) = true ∧ Resting .idle [] (fun b k => Fresh b ∧ k.isSome = hasKey) s)
      (Throws (has || ok) Sound) := by
  intro s hs
  obtain ⟨hunused, hhas, hkey⟩ := hs.owned
  cases hbind : s.bind with
  | none =>
      have hno : has = false := by rw [← hhas, hbind]; rfl
      rw [ensureBind, hbind, hno, Bool.false_or]
      have hs' : Resting .idle [] (fun b k => b = none ∧ k.isSome = hasKey) s :=
        { hs with owned := ⟨hbind, hkey⟩ }
      refine (meets_newBind ok).mono (fun _ h => h) (fun _ _ h => h) (fun e s h => ?_) s hs'
      exact h.mono id fun hrest => Sound.rest (hrest.mono fun b k h => .inl h.1)
  | some bind =>
      have hyes : has = true := by rw [← hhas, hbind]; rfl
      have hfresh : Fresh s.bind := hunused.resolve_left (by rw [hbind]; nofun)
      rw [ensureBind, hbind, hyes]
      exact ⟨rfl, { hs with owned := ⟨hfresh, hkey⟩ }⟩

theorem meets_ensureHostkey {has : Bool} (answers : KeyAnswers) :
    Meets (Resting .idle [] fun b k => Fresh b ∧ k.isSome = has) (ensureHostkey answers)
      (fun _ s => (has || answers.context && answers.generate) = true ∧
        Resting .idle [] (fun b k => Fresh b ∧ k.isSome) s)
      (Throws (has || answers.context && answers.generate) Sound) := by
  intro s hs
  obtain ⟨hfresh, hhas⟩ := hs.owned
  cases hkey : s.hostkey with
  | none =>
      have hno : has = false := by rw [← hhas, hkey]; rfl
      rw [ensureHostkey, hkey, hno, Bool.false_or]
      refine (meets_newHostkey answers).mono (fun _ h => h) (fun _ s h => ?_)
        (fun e s h => ?_) s hs
      · refine ⟨h.1, h.2.mono ?_⟩
        rintro b k ⟨hsome, k', hb, -⟩
        exact ⟨hb, hsome⟩
      · exact h.mono id fun hrest => Sound.rest (hrest.mono fun b k h => .inr h.1)
  | some key =>
      have hyes : has = true := by rw [← hhas, hkey]; rfl
      rw [ensureHostkey, hkey, hyes]
      exact ⟨rfl, { hs with owned := ⟨hfresh, by rw [hkey]; rfl⟩ }⟩

/-- What `start()` throws before it uses the bind is thrown properly. -/
theorem Throws.reads {ok invalid : Bool} {e : SshFailure} (h : Throws ok Sound e s)
    (hinvalid : ok = false → invalid = false) : Reads invalid e s :=
  ⟨iff_of_false h.2.1 (by rw [hinvalid h.1]; nofun), h.2.2⟩

theorem meets_prepare {has hasKey : Bool} (answers : StartAnswers) :
    Meets (Resting .idle [] fun b k => Unused b ∧ b.isSome = has ∧ k.isSome = hasKey)
      (prepare answers)
      (fun _ s => ((has || answers.bind) &&
          (hasKey || answers.key.context && answers.key.generate)) = true ∧
        Resting .idle [] (fun b k => Fresh b ∧ k.isSome) s)
      (Throws ((has || answers.bind) &&
        (hasKey || answers.key.context && answers.key.generate)) Sound) := by
  have hstopped : ∀ s, s.phase = .idle → requireStopped s = .ok () s := by
    intro s hs
    have hrunning : s.isRunning = false := by rw [isRunning, hs]; rfl
    rw [requireStopped, hrunning]
    rfl
  have hrequired : ∀ escape, Meets
      (Resting .idle [] fun b k => Unused b ∧ b.isSome = has ∧ k.isSome = hasKey) requireStopped
      (fun _ => Resting .idle [] fun b k => Unused b ∧ b.isSome = has ∧ k.isSome = hasKey)
      escape := by
    intro escape s hs
    rw [hstopped s hs.phase_eq]
    exact hs
  apply (hrequired _).bind
  intro _
  apply ((meets_ensureBind answers.bind).mono (fun _ h => h) (fun _ _ h => h)
    fun e s h => h.mono (fun hno => by rw [hno]; rfl) id).bind
  intro _
  apply Meets.given
  intro hbind
  rw [hbind, Bool.true_and]
  exact meets_ensureHostkey answers.key

theorem meets_start {has hasKey : Bool} (outlives : Bool) (answers : StartAnswers) :
    Meets (Resting .idle [] fun b k => Unused b ∧ b.isSome = has ∧ k.isSome = hasKey)
      (start outlives answers)
      (fun _ s => answers.accepted outlives = true ∧ Sound s)
      (Reads ((has || answers.bind) && (hasKey || answers.key.context && answers.key.generate) &&
        !answers.accepted outlives)) := by
  apply ((meets_prepare answers).mono (fun _ h => h) (fun _ _ h => h)
    fun e s h => h.reads fun hno => by rw [hno]; rfl).bind
  intro _
  apply Meets.given
  intro hreaches
  rw [hreaches, Bool.true_and]
  exact meets_openBind outlives answers

theorem Sound.fail (h : Sound s) (failure : Option SshFailure) :
    Sound { s with failure := failure } := by
  cases h with
  | void hphase hheld h => exact .void hphase hheld { h with }
  | rest h => exact .rest { h with }
  | up hphase haccounts h => exact .up hphase haccounts h
  | closing hphase hacceptor haccounts h => exact .closing hphase hacceptor haccounts h

/-- In an idle server the bind, if there is one, is waiting for the next `start()`. -/
theorem Sound.idle (h : Sound s) (hidle : s.phase = .idle) :
    Resting .idle [] (fun b _ => Unused b) s := by
  cases h with
  | void hphase => rcases hphase with h | h <;> rw [hidle] at h <;> cases h
  | rest h => exact h
  | up hphase => rcases hphase with h | h <;> rw [hidle] at h <;> cases h
  | closing hphase =>
      rw [hidle] at hphase
      cases hphase

theorem start_running (hrunning : s.phase = .running) (outlives : Bool) (answers : StartAnswers) :
    start outlives answers s = .error (.thrown (txt "sftp_server is already running")) s := by
  have hstopped : requireStopped s =
      .error (.thrown (txt "sftp_server is already running")) s := by
    have hyes : s.isRunning = true := by rw [isRunning, hrunning]; rfl
    rw [requireStopped, hyes]
    rfl
  have hprepare : prepare answers s =
      .error (.thrown (txt "sftp_server is already running")) s := by
    change EStateM.bind requireStopped _ s = _
    rw [EStateM.bind, hstopped]
  change EStateM.bind (prepare answers) _ s = _
  rw [EStateM.bind, hprepare]

/-- `start()` comes to the options of the bind, and they are not all taken or
the bind does not listen. -/
def Misreads (outlives : Bool) (s : SshOwner) (answers : StartAnswers) : Prop :=
  s.phase = .idle ∧ (s.bind.isSome || answers.bind) = true ∧
    (s.hostkey.isSome || answers.key.context && answers.key.generate) = true ∧
      answers.accepted outlives = false

theorem settle_start (h : Sound s) (hcallable : s.Callable) (outlives : Bool)
    (answers : StartAnswers) :
    Sound (settle id (start outlives answers s)) ∧
      ((settle id (start outlives answers s)).failure = some .invalidRead ↔
        s.Misreads outlives answers) := by
  rcases hcallable with hidle | hrunning
  · have hs : Resting .idle [] (fun b k =>
        Unused b ∧ b.isSome = s.bind.isSome ∧ k.isSome = s.hostkey.isSome) s :=
      { h.idle hidle with owned := ⟨(h.idle hidle).owned, rfl, rfl⟩ }
    cases hstart : start outlives answers s with
    | ok a t =>
        obtain ⟨haccepted, ht⟩ := (meets_start outlives answers).ok hs hstart
        refine ⟨ht.fail none, iff_of_false nofun ?_⟩
        rintro ⟨-, -, -, hno⟩
        rw [haccepted] at hno
        cases hno
    | error e t =>
        obtain ⟨hinvalid, ht⟩ := (meets_start outlives answers).error hs hstart
        refine ⟨ht.fail _, Option.some_inj.trans (hinvalid.trans ?_)⟩
        simp [Misreads, hidle, and_assoc]
  · rw [start_running hrunning]
    refine ⟨h.fail _, iff_of_false nofun ?_⟩
    rintro ⟨hidle, -⟩
    rw [hrunning] at hidle
    cases hidle

/-- The members free what the server still owns. -/
theorem Resting.dropMembers (h : Resting phase [] owns s) : Sound s.dropMembers := by
  have hdrop := h.dropHostkey.resetBind
  have hheld : s.dropHostkey.resetBind.held = [] := rfl
  exact .void (.inr rfl) hheld { hdrop with phase_eq := rfl, owned := .inl rfl }

theorem meets_construct (answers : ConstructorAnswers) :
    Meets (Resting .unborn [] fun b k => b = none ∧ k = none) (construct answers) (fun _ => Sound)
      (fun e s => e ≠ .invalidRead ∧ Sound s.dropMembers) := by
  have hthrows : ∀ {ok owns} e s, Throws ok (Resting .unborn [] owns) e s →
      e ≠ .invalidRead ∧ Sound s.dropMembers :=
    fun e s h => ⟨h.2.1, h.2.2.dropMembers⟩
  apply ((meets_newBind answers.bind).mono (fun _ h => h) (fun _ _ h => h) hthrows).bind
  intro _
  apply Meets.given
  intro hbind
  apply ((meets_newHostkey answers.key).mono (fun _ h => h) (fun _ _ h => h) hthrows).bind
  intro _
  apply Meets.given
  intro hkey
  cases answers.tempDir with
  | some what => exact Meets.throw fun s hs => ⟨nofun, hs.dropMembers⟩
  | none =>
      apply Meets.modify
      intro s hs
      obtain ⟨-, k', hfresh, -⟩ := hs.owned
      exact .rest { hs with phase_eq := rfl, owned := .inr hfresh }

theorem settle_construct (h : Sound s) (hunborn : s.phase = .unborn)
    (answers : ConstructorAnswers) :
    Sound (settle SshOwner.dropMembers (construct answers s)) ∧
      (settle SshOwner.dropMembers (construct answers s)).failure ≠ some .invalidRead := by
  have hs : Resting .unborn [] (fun b k => b = none ∧ k = none) s := by
    cases h with
    | void hphase hheld h =>
        have hbind : s.bind = none := by
          rcases h.owned with hnone | ⟨id, hfresh⟩
          · exact hnone
          · rw [held, bound, hfresh] at hheld
            cases hheld
        have hkey : s.hostkey = none := by
          rw [held, bound, hbind] at hheld
          exact Option.toList_eq_nil_iff.mp hheld
        exact { h with phase_eq := hunborn, owned := ⟨hbind, hkey⟩ }
    | rest h => exact absurd (hunborn.symm.trans h.phase_eq) nofun
    | up hphase => rcases hphase with h | h <;> exact absurd (hunborn.symm.trans h) nofun
    | closing hphase => exact absurd (hunborn.symm.trans hphase) nofun
  cases hconstruct : construct answers s with
  | ok a t => exact ⟨((meets_construct answers).ok hs hconstruct).fail none, nofun⟩
  | error e t =>
      obtain ⟨he, ht⟩ := (meets_construct answers).error hs hconstruct
      exact ⟨ht.fail _, fun h => he (Option.some.inj h)⟩

/-- While there is an acceptor, the bind listens. -/
theorem Sound.up_of_acceptor {use : BindUse} (h : Sound s) (huse : s.acceptor = some use) :
    (s.phase = .running ∨ s.phase = .joining) ∧ s.ssh.Accounts s.held ∧
      Keyed true s.bind s.hostkey := by
  cases h with
  | void _ _ h => exact absurd (huse.symm.trans h.acceptor) nofun
  | rest h => exact absurd (huse.symm.trans h.acceptor) nofun
  | up hphase haccounts h => exact ⟨hphase, haccounts, h⟩
  | closing _ hacceptor => exact absurd (huse.symm.trans hacceptor) nofun

theorem Sound.acceptorStep {use : BindUse} {action : BindAction} {t : SshOwner} (h : Sound s)
    (huse : s.acceptor = some use) (ht : s.acceptorStep use action = some t) :
    Sound t ∧ t.failure = s.failure := by
  obtain ⟨hphase, haccounts, hkeyed⟩ := h.up_of_acceptor huse
  have hset : ∀ use', Sound { s with acceptor := use' } := fun _ => .up hphase haccounts hkeyed
  have hlistening : s.bind.any SshBind.listening = true := by
    obtain ⟨⟨id, key, hbind⟩, -⟩ := hkeyed
    rw [hbind]
    rfl
  cases use <;> cases action <;> simp only [SshOwner.acceptorStep, reduceCtorEq] at ht
  case checking.check session =>
    split at ht <;> cases ht <;> exact ⟨hset _, rfl⟩
  case accepting.accept ok =>
    rw [accept, if_pos hlistening] at ht
    split at ht <;> cases ht <;> exact ⟨hset _, rfl⟩
  case exchanging.exchange ok =>
    split at ht <;> cases ht <;> exact ⟨hset _, rfl⟩

theorem isRunning_iff : s.isRunning = true ↔ s.phase = .running := decide_eq_true_iff

/-- From the end of `start()` to the end of `stop()` the bind listens. -/
theorem Sound.keyed (h : Sound s)
    (hphase : s.phase = .running ∨ s.phase = .joining ∨ s.phase = .resetting) :
    s.ssh.Accounts s.held ∧ Keyed true s.bind s.hostkey := by
  cases h with
  | void hvoid =>
      rcases hvoid with h | h <;> rw [h] at hphase <;> rcases hphase with h | h | h <;> cases h
  | rest h =>
      rw [h.phase_eq] at hphase
      rcases hphase with h | h | h <;> cases h
  | up _ haccounts h => exact ⟨haccounts, h⟩
  | closing _ _ haccounts h => exact ⟨haccounts, h⟩

theorem Sound.enterStop (h : Sound s) : Sound s.enterStop := by
  rw [SshOwner.enterStop]
  split
  · next hrunning =>
      obtain ⟨haccounts, hkeyed⟩ := h.keyed (.inl (isRunning_iff.mp hrunning))
      exact .up (.inr rfl) haccounts hkeyed
  · exact h

theorem Sound.destroy (h : Sound s) (hcallable : s.Callable) : Sound s.destroy := by
  rw [SshOwner.destroy]
  split
  · next hrunning =>
      obtain ⟨haccounts, hkeyed⟩ := h.keyed (.inl (isRunning_iff.mp hrunning))
      exact .up (.inr rfl) haccounts hkeyed
  · next hrunning =>
      exact (h.idle (hcallable.resolve_right (mt isRunning_iff.mpr hrunning))).dropMembers

/-- The bind is freed with the key in it, and nobody uses it any more. -/
theorem leaveStop_sound (hacceptor : s.acceptor = none) (haccounts : s.ssh.Accounts s.held) :
    Sound s.leaveStop := by
  have hrest : Resting .idle [] (fun b _ => Unused b)
      { s.resetBind with port := 0, phase := .idle } :=
    ⟨rfl, hacceptor, rfl, Pool.Accounts.freeAll haccounts, .inl rfl⟩
  rw [leaveStop]
  split
  · exact hrest.dropMembers
  · exact .rest hrest

theorem Sound.proceed {t : SshOwner} (h : Sound s) (ht : s.proceed = some t) :
    Sound t ∧ t.failure = s.failure := by
  rw [SshOwner.proceed] at ht
  split at ht
  · next hphase hacceptor =>
      cases ht
      obtain ⟨haccounts, hkeyed⟩ := h.keyed (.inr (.inl hphase))
      exact ⟨.closing rfl hacceptor haccounts hkeyed, rfl⟩
  · next hphase hacceptor =>
      cases ht
      obtain ⟨haccounts, hkeyed⟩ := h.keyed (.inr (.inl hphase))
      exact ⟨.closing rfl rfl haccounts hkeyed, rfl⟩
  · next hphase =>
      cases ht
      refine ⟨?_, ?_⟩
      · cases h with
        | void hvoid => rcases hvoid with h | h <;> exact absurd (h.symm.trans hphase) nofun
        | rest h => exact absurd (h.phase_eq.symm.trans hphase) nofun
        | up hup => rcases hup with h | h <;> exact absurd (h.symm.trans hphase) nofun
        | closing _ hacceptor haccounts => exact leaveStop_sound hacceptor haccounts
      · rw [leaveStop]
        split <;> rfl
  · cases ht

/-- A step that reads wrongly is a `start()` that asks for an error which it
cannot have. -/
theorem Sound.step {outlives : Bool} {event : OwnerEvent} {t : SshOwner} (h : Sound s)
    (ht : step outlives s event = some t) :
    Sound t ∧ (t.failure = some .invalidRead ↔
      ∃ answers, event = .start answers ∧ s.Misreads outlives answers) := by
  have hfailure : s.failure ≠ some .invalidRead := by
    intro hread
    rw [SshOwner.step.eq_def, if_pos hread] at ht
    cases ht
  rw [SshOwner.step.eq_def, if_neg hfailure] at ht
  have hkeeps : ∀ {u : SshOwner}, (∀ answers, event ≠ .start answers) →
      Sound u ∧ u.failure = s.failure → Sound u ∧ (u.failure = some .invalidRead ↔
        ∃ answers, event = .start answers ∧ s.Misreads outlives answers) := by
    rintro u hevent ⟨hu, hsame⟩
    refine ⟨hu, iff_of_false (by rw [hsame]; exact hfailure) ?_⟩
    rintro ⟨answers, hstart, -⟩
    exact hevent answers hstart
  cases event with
  | construct answers =>
      dsimp only at ht
      split at ht
      · next hunborn =>
          cases ht
          obtain ⟨hu, hno⟩ := settle_construct h hunborn answers
          refine ⟨hu, iff_of_false hno ?_⟩
          rintro ⟨_, heq, -⟩
          cases heq
      · cases ht
  | start answers =>
      dsimp only at ht
      split at ht
      · next hcallable =>
          cases ht
          obtain ⟨hu, hiff⟩ := settle_start h hcallable outlives answers
          refine ⟨hu, hiff.trans ⟨fun hmis => ⟨answers, rfl, hmis⟩, ?_⟩⟩
          rintro ⟨answers', heq, hmis⟩
          cases heq
          exact hmis
      · cases ht
  | stop =>
      dsimp only at ht
      split at ht
      · cases ht
        refine hkeeps (fun _ heq => by cases heq) ⟨h.enterStop, ?_⟩
        rw [SshOwner.enterStop]
        split <;> rfl
      · cases ht
  | destroy =>
      dsimp only at ht
      split at ht
      · next hcallable =>
          cases ht
          refine hkeeps (fun _ heq => by cases heq) ⟨h.destroy hcallable, ?_⟩
          rw [SshOwner.destroy]
          split <;> rfl
      · cases ht
  | proceed => exact hkeeps (fun _ heq => by cases heq) (h.proceed ht)
  | acceptor action =>
      obtain ⟨use, huse, hstep⟩ := Option.bind_eq_some_iff.mp ht
      exact hkeeps (fun _ heq => by cases heq) (h.acceptorStep huse hstep)

theorem sound_initial : Sound {} :=
  .void (.inl rfl) rfl ⟨rfl, rfl, rfl, Pool.accounts_empty, .inl rfl⟩

/-- A bind that listens has its key. -/
theorem Sound.inCustody (h : Sound s) : s.InCustody := by
  have hquiet : ∀ {phase}, Resting phase [] (fun b _ => Unused b) s →
      ¬ (phase = .running ∨ phase = .joining ∨ phase = .resetting) →
      (phase = .destroyed → s.held = []) → s.InCustody := by
    intro phase h hphase hgone
    have hnot : ∀ bind ∈ s.bind, bind.listening ≠ true := by
      intro bind hbind
      rcases h.owned with hnone | ⟨id, hfresh⟩
      · exact absurd (hnone.symm.trans hbind) nofun
      · obtain rfl := Option.some.inj (hfresh.symm.trans hbind)
        nofun
    exact {
      accounts := h.accounts
      listening := iff_of_false (fun ⟨bind, hbind, hlistening⟩ => hnot bind hbind hlistening)
        (by rwa [h.phase_eq])
      keyed := fun bind hbind hlistening => absurd hlistening (hnot bind hbind)
      accepting := fun haccepting => absurd (haccepting.symm.trans h.acceptor) nofun
      port := fun _ => h.port
      gone := by rwa [h.phase_eq] }
  have hup : s.ssh.Accounts s.held → Keyed true s.bind s.hostkey →
      s.phase = .running ∨ s.phase = .joining ∨ s.phase = .resetting → s.InCustody := by
    rintro haccounts ⟨⟨id, key, hbind⟩, -⟩ hphase
    have hlistening : ∃ bind ∈ s.bind, bind.listening = true := ⟨_, hbind, rfl⟩
    exact {
      accounts := haccounts
      listening := iff_of_true hlistening hphase
      keyed := by
        intro bind hmem _
        obtain rfl := Option.some.inj (hbind.symm.trans hmem)
        rfl
      accepting := fun _ => hlistening
      port := by
        intro hidle
        rw [hidle] at hphase
        rcases hphase with h | h | h <;> cases h
      gone := by
        intro hdestroyed
        rw [hdestroyed] at hphase
        rcases hphase with h | h | h <;> cases h }
  cases h with
  | void hphase hheld h =>
      refine hquiet h ?_ fun _ => hheld
      rcases hphase with h | h <;> rw [h] <;> nofun
  | rest h => exact hquiet h nofun nofun
  | up hphase haccounts h =>
      exact hup haccounts h (hphase.elim .inl fun h => .inr (.inl h))
  | closing hphase _ haccounts h => exact hup haccounts h (.inr (.inr hphase))

/-- In every run, whatever libssh and the system answer: every bind, key and
context is owned or freed once, the server listens with a host key exactly
while it runs or stops, its acceptor accepts only then, and nothing outlives
the destructor or a constructor that throws. -/
theorem ssh_objects_in_custody (outlives : Bool) (events : List OwnerEvent) :
    Always (step outlives) InCustody {} events :=
  always_of_invariant_along (P := fun _ _ => True) (fun _ _ _ hs _ ht => (hs.step ht).1)
    (fun _ hs => hs.inCustody) sound_initial (along_of_forall (fun _ _ => trivial) _ _)

/-- A run reads no null or freed pointer exactly when no `start()` that comes
to the options of the bind has one of them refused, or fails to listen where
the error goes with the bind. -/
theorem reads_valid_iff (outlives : Bool) (events : List OwnerEvent) :
    Always (step outlives) (fun s => s.failure ≠ some .invalidRead) {} events ↔
      Along (step outlives) (fun s event =>
        ∀ answers, event = .start answers → ¬ s.Misreads outlives answers) {} events := by
  refine always_iff_along (I := fun s => Sound s ∧ s.failure ≠ some .invalidRead)
    (fun s hs => hs.2) ?_ ?_ ⟨sound_initial, nofun⟩ events
  · rintro s event t ⟨hs, -⟩ hevent ht
    obtain ⟨hsound, hiff⟩ := hs.step ht
    refine ⟨hsound, fun hread => ?_⟩
    obtain ⟨answers, heq, hmis⟩ := hiff.mp hread
    exact hevent answers heq hmis
  · rintro s event ⟨hs, hfailure⟩ hnot
    obtain ⟨answers, hnot⟩ := not_forall.mp hnot
    obtain ⟨heq, hmis⟩ := Classical.not_imp.mp hnot
    have hmis := not_not.mp hmis
    have hstep : step outlives s event = some (settle id (start outlives answers s)) := by
      rw [heq, step, if_neg hfailure]
      exact if_pos (Or.inl hmis.1)
    exact ⟨_, hstep, not_not.mpr ((hs.step hstep).2.mpr ⟨answers, heq, hmis⟩)⟩

end SshOwner

end MockServices.Sftp
