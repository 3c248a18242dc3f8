import MockServices.Ftp.Connection

/-!
# Whose session it is

A ledger beside the connection records what the client was told: the
name in the most recent USER command and the account record of the most
recent `230 Login successful`, with the name that was pending then. The
identity of an authenticated session agrees with the ledger as long as
three things do not happen: a USER command for another password account
after the log-in, a PASS that follows a USER with an unknown name, and
an anonymous log-in with a root of its own.
-/

namespace MockServices.Ftp

open Foundations

/-- A log-in the server has confirmed. -/
structure Grant where
  record : User
  named : Option Text

structure Ledger where
  named : Option Text := none
  granted : Option Grant := none

def Ledger.observe (ledger : Ledger) (conn : Connection) (line : Text) (effects : List Effect) :
    Ledger :=
  match lineVerb line with
  | some .user =>
      let named := some (lineArg line)
      if .reply loginSuccessful ∈ effects then
        ⟨named, (findUser conn.server.users (lineArg line)).map (⟨·, named⟩)⟩
      else { ledger with named }
  | some .pass =>
      if .reply loginSuccessful ∈ effects then
        { ledger with
          granted := (findAccount conn.server.users conn.client.user).map (⟨·, ledger.named⟩) }
      else ledger
  | _ => ledger

structure Audited where
  conn : Connection
  ledger : Ledger

def Audited.start (tmp : Text) (sock : RawSocket) : Audited := ⟨Connection.start tmp sock, {}⟩

def Audited.next (a : Audited) : Input → Audited
  | .line text os =>
      ⟨a.conn.next (.line text os), a.ledger.observe a.conn text (a.conn.effects os text)⟩
  | input => ⟨a.conn.next input, a.ledger⟩

def Audited.step (a : Audited) (input : Input) : Option Audited := some (a.next input)

def plainRoot (root : Text) : Bool := root = [] ∨ root = ['/']

/-- The temporary directory joined with an account's root. -/
def joinedRoot (tmp root : Text) : Text :=
  if plainRoot root then tmp
  else match root with
    | '/' :: rest => tmp ++ '/' :: rest
    | _ => tmp ++ '/' :: root

/-- An authenticated session belongs to the one account record whose
log-in was confirmed last, for the name presented then. -/
def SessionIdentity (tmp : Text) (a : Audited) : Prop :=
  a.conn.client.auth = true → ∃ grant, a.ledger.granted = some grant ∧
    grant.named = some grant.record.name ∧ a.conn.client.user = grant.record.name ∧
      a.conn.client.perm = grant.record.perm ∧
        a.conn.client.phyRoot = joinedRoot tmp grant.record.root

/-- PASS reaches the branch that logs the client in. -/
def logsIn (conn : Connection) (arg : Text) : Bool :=
  !conn.client.auth && conn.client.user ≠ [] &&
    (findAccount conn.server.users conn.client.user).any fun user => user.pass = arg

/-- USER names no password account other than the one logged in; an
anonymous log-in finds a record without a root of its own; PASS logs in
only for the name in the most recent USER; and a log-in is answered. -/
def keepsIdentity (a : Audited) : Input → Bool
  | .line line _ =>
      match lineVerb line with
      | some .user =>
          match findUser a.conn.server.users (lineArg line) with
          | none => true
          | some user =>
              if user.anon then a.conn.client.sock.isSome && plainRoot user.root
              else !a.conn.client.auth || a.conn.client.user = user.name
      | some .pass =>
          !logsIn a.conn (lineArg line) ||
            (a.conn.client.sock.isSome && a.ledger.named = some a.conn.client.user)
      | _ => true
  | _ => true

/-- What a run keeps true besides the identity itself. -/
structure Registered (tmp : Text) (a : Audited) : Prop where
  tmp_eq : a.conn.server.tmp = tmp
  anon_name : ∀ user ∈ a.conn.server.users, user.anon = true → user.name = txt "anonymous"

theorem accountRoot_fst (tmp root : Text) : (accountRoot tmp root).1 = joinedRoot tmp root := by
  unfold accountRoot joinedRoot plainRoot
  by_cases hplain : root = [] ∨ root = ['/']
  · rcases hplain with rfl | rfl <;> simp
  · have hne : root ≠ [] ∧ root ≠ ['/'] := not_or.mp hplain
    simp only [hne, ne_eq, not_false_eq_true, and_self, if_true]
    split
    · rename_i rest
      have hrest : rest ≠ [] := fun h => hne.2 (by rw [h])
      simp [hrest]
    · simp [hne.1]

theorem mem_addUser {name pass root : Text} {perm : FtpPermission} {users : List User}
    {user : User} (h : user ∈ addUser name pass root perm users) :
    user ∈ users ∨ user.anon = false := by
  induction users with
  | nil =>
      obtain rfl : user = ⟨name, pass, root, perm, false⟩ := by simpa [addUser] using h
      exact Or.inr rfl
  | cons u users ih =>
      by_cases hu : u.name = name ∧ ¬ u.anon
      · rw [addUser, if_pos hu] at h
        rcases List.mem_cons.mp h with rfl | h
        · exact Or.inr (by simpa using hu.2)
        · exact Or.inl (List.mem_cons_of_mem _ h)
      · rw [addUser, if_neg hu] at h
        rcases List.mem_cons.mp h with rfl | h
        · exact Or.inl List.mem_cons_self
        · exact (ih h).imp_left (List.mem_cons_of_mem _)

theorem findUser_spec {users : List User} {arg : Text} {user : User}
    (h : findUser users arg = some user) :
    user ∈ users ∧ (user.name = arg ∨ (user.anon = true ∧ arg = txt "anonymous")) :=
  ⟨List.mem_of_find?_eq_some h, by simpa using List.find?_some h⟩

theorem findAccount_spec {users : List User} {name : Text} {user : User}
    (h : findAccount users name = some user) : user.name = name ∧ user.anon = false := by
  simpa using List.find?_some h

/-- The text of a reply decides whether it confirms a log-in. -/
theorem confirms_ftpSend (client : Client) (msg : Text) :
    .reply loginSuccessful ∈ ftpSend client msg ↔
      client.sock ≠ none ∧ loginSuccessful = msg := by
  unfold ftpSend
  split <;> simp_all

theorem Registered.next {tmp : Text} {a : Audited} (h : Registered tmp a) (input : Input) :
    Registered tmp (a.next input) := by
  cases input with
  | line text os =>
      obtain ⟨htmp, husers⟩ := dispatch_registry os a.conn.server a.conn.client text
      exact ⟨htmp.trans h.tmp_eq, fun user hmem => h.anon_name user (husers ▸ hmem)⟩
  | addUser name pass root perm =>
      refine ⟨h.tmp_eq, fun user hmem hanon => ?_⟩
      rcases mem_addUser hmem with hmem | hpassword
      · exact h.anon_name user hmem hanon
      · simp [hpassword] at hanon
  | addAnonymousUser root perm =>
      refine ⟨h.tmp_eq, fun user hmem hanon => ?_⟩
      rcases List.mem_append.mp hmem with hmem | hmem
      · exact h.anon_name user hmem hanon
      · obtain rfl : user = _ := List.mem_singleton.mp hmem
        rfl
  | clearUsers => exact ⟨h.tmp_eq, fun user hmem => by simp [Audited.next, Connection.next] at hmem⟩

/-- A step that neither logs in nor renames keeps the agreement. -/
theorem SessionIdentity.of_eq {tmp : Text} {a b : Audited} (h : SessionIdentity tmp a)
    (hclient : b.conn.client.identity = a.conn.client.identity)
    (hledger : b.ledger.granted = a.ledger.granted) : SessionIdentity tmp b := by
  obtain ⟨huser, hauth, hperm, hroot⟩ : b.conn.client.user = a.conn.client.user ∧
      b.conn.client.auth = a.conn.client.auth ∧ b.conn.client.perm = a.conn.client.perm ∧
        b.conn.client.phyRoot = a.conn.client.phyRoot := by
    simpa [Client.identity] using hclient
  simpa [SessionIdentity, huser, hauth, hperm, hroot, hledger] using h

theorem sessionIdentity_user {tmp : Text} {a : Audited} (hreg : Registered tmp a)
    (h : SessionIdentity tmp a) {line : Text} {os : Os} (hverb : lineVerb line = some .user)
    (hkeeps : keepsIdentity a (.line line os) = true) :
    SessionIdentity tmp (a.next (.line line os)) := by
  have hdispatch : dispatch os a.conn.server a.conn.client line =
      userCmd a.conn.server a.conn.client (lineArg line) := by rw [dispatch_eq, hverb, command]
  simp only [keepsIdentity, hverb] at hkeeps
  cases hfind : findUser a.conn.server.users (lineArg line) with
  | none =>
      have hcmd : userCmd a.conn.server a.conn.client (lineArg line) =
          (a.conn.server, a.conn.client, ftpSend a.conn.client "530 Login incorrect\r\n") := by
        simp only [userCmd, hfind]
      refine h.of_eq ?_ ?_
      · simp only [Audited.next, Connection.next, hdispatch, hcmd]
      · have hno : loginSuccessful ≠ txt "530 Login incorrect\r\n" := by decide
        simp only [Audited.next, Ledger.observe, hverb, Connection.effects, hdispatch, hcmd,
          confirms_ftpSend, hno, and_false, if_false]
  | some user =>
      simp only [hfind] at hkeeps
      obtain ⟨hmem, hname⟩ := findUser_spec hfind
      by_cases hanon : user.anon = true
      · simp only [hanon, if_true, Bool.and_eq_true] at hkeeps
        obtain ⟨hsock, hplain⟩ := hkeeps
        have hsock' : a.conn.client.sock ≠ none := Option.isSome_iff_ne_none.mp hsock
        have hanonymous := hreg.anon_name user hmem hanon
        have harg : lineArg line = user.name := by
          rcases hname with hname | ⟨-, hname⟩
          · exact hname.symm
          · rw [hname, hanonymous]
        intro _
        refine ⟨⟨user, some (lineArg line)⟩, ?_, by rw [harg], ?_, ?_, ?_⟩
        · simp [Audited.next, Ledger.observe, hverb, Connection.effects, hdispatch, userCmd, hfind,
            hanon, confirms_ftpSend, hsock']
        · simp [Audited.next, Connection.next, hdispatch, userCmd, hfind, hanon]
        · simp [Audited.next, Connection.next, hdispatch, userCmd, hfind, hanon]
        · simp [Audited.next, Connection.next, hdispatch, userCmd, hfind, hanon, joinedRoot,
            hplain, hreg.tmp_eq]
      · have hno : loginSuccessful ≠ txt "331 Password required\r\n" := by decide
        have hcmd : userCmd a.conn.server a.conn.client (lineArg line) =
            (a.conn.server, { a.conn.client with user := user.name },
              ftpSend { a.conn.client with user := user.name } "331 Password required\r\n") := by
          simp only [userCmd, hfind, hanon]
          rfl
        have hgranted : (a.next (.line line os)).ledger.granted = a.ledger.granted := by
          simp only [Audited.next, Ledger.observe, hverb, Connection.effects, hdispatch, hcmd,
            confirms_ftpSend, hno, and_false, if_false]
        have hclient : (a.next (.line line os)).conn.client =
            { a.conn.client with user := user.name } := by
          simp only [Audited.next, Connection.next, hdispatch, hcmd]
        simp only [hanon, if_false, Bool.false_eq_true, Bool.or_eq_true, Bool.not_eq_true',
          decide_eq_true_eq] at hkeeps
        rcases hkeeps with hauth | hsame
        · intro hauth'
          simp [hclient, hauth] at hauth'
        · refine h.of_eq ?_ hgranted
          rw [hclient]
          simp [Client.identity, hsame]

theorem sessionIdentity_pass {tmp : Text} {a : Audited} (hreg : Registered tmp a)
    (h : SessionIdentity tmp a) {line : Text} {os : Os} (hverb : lineVerb line = some .pass)
    (hkeeps : keepsIdentity a (.line line os) = true) :
    SessionIdentity tmp (a.next (.line line os)) := by
  have hdispatch : dispatch os a.conn.server a.conn.client line =
      passCmd a.conn.server a.conn.client (lineArg line) := by rw [dispatch_eq, hverb, command]
  -- The four refusals send a text other than the confirmation.
  have hrefused : ∀ msg : Text, loginSuccessful ≠ msg →
      passCmd a.conn.server a.conn.client (lineArg line) =
        (a.conn.server, a.conn.client, ftpSend a.conn.client msg) →
      SessionIdentity tmp (a.next (.line line os)) := by
    intro msg hmsg hcmd
    refine h.of_eq ?_ ?_
    · simp only [Audited.next, Connection.next, hdispatch, hcmd]
    · simp only [Audited.next, Ledger.observe, hverb, Connection.effects, hdispatch, hcmd,
        confirms_ftpSend, hmsg, and_false, if_false]
  by_cases hauth : a.conn.client.auth = true
  · exact hrefused (txt "230 Already logged in\r\n") (by decide) (by simp [passCmd, hauth])
  · by_cases hnamed : a.conn.client.user = []
    · exact hrefused (txt "503 Login with USER first\r\n") (by decide)
        (by simp [passCmd, hauth, hnamed])
    · cases hfind : findAccount a.conn.server.users a.conn.client.user with
      | none =>
          exact hrefused (txt "530 Login incorrect\r\n") (by decide)
            (by simp [passCmd, hauth, hnamed, hfind])
      | some user =>
          by_cases hpass : user.pass = lineArg line
          · have hlogs : logsIn a.conn (lineArg line) = true := by
              simp [logsIn, hauth, hnamed, hfind, hpass]
            simp only [keepsIdentity, hverb, hlogs, Bool.not_true, Bool.false_or,
              Bool.and_eq_true, decide_eq_true_eq] at hkeeps
            obtain ⟨hsock, hpending⟩ := hkeeps
            have hsock' : a.conn.client.sock ≠ none := Option.isSome_iff_ne_none.mp hsock
            obtain ⟨hname, -⟩ := findAccount_spec hfind
            intro _
            refine ⟨⟨user, a.ledger.named⟩, ?_, by rw [hpending, hname], ?_, ?_, ?_⟩
            · simp [Audited.next, Ledger.observe, hverb, Connection.effects, hdispatch, passCmd,
                hauth, hnamed, hfind, hpass, confirms_ftpSend, hsock']
            · simp [Audited.next, Connection.next, hdispatch, passCmd, hauth, hnamed, hfind,
                hpass, hname]
            · simp [Audited.next, Connection.next, hdispatch, passCmd, hauth, hnamed, hfind, hpass]
            · simp [Audited.next, Connection.next, hdispatch, passCmd, hauth, hnamed, hfind, hpass,
                accountRoot_fst, hreg.tmp_eq]
          · exact hrefused (txt "530 Login incorrect\r\n") (by decide)
              (by simp [passCmd, hauth, hnamed, hfind, hpass])

theorem sessionIdentity_next {tmp : Text} {a : Audited} (hreg : Registered tmp a)
    (h : SessionIdentity tmp a) {input : Input} (hkeeps : keepsIdentity a input = true) :
    SessionIdentity tmp (a.next input) := by
  cases input with
  | line line os =>
      by_cases huser : lineVerb line = some .user
      · exact sessionIdentity_user hreg h huser hkeeps
      · by_cases hpass : lineVerb line = some .pass
        · exact sessionIdentity_pass hreg h hpass hkeeps
        · obtain ⟨-, hidentity⟩ :=
            command_other os a.conn.server a.conn.client (lineArg line) huser hpass
          apply h.of_eq hidentity
          have hledger : a.ledger.observe a.conn line (a.conn.effects os line) = a.ledger := by
            unfold Ledger.observe
            split
            · exact (huser ‹_›).elim
            · exact (hpass ‹_›).elim
            · rfl
          exact congrArg Ledger.granted hledger
  | addUser name pass root perm => exact h.of_eq rfl rfl
  | addAnonymousUser root perm => exact h.of_eq rfl rfl
  | clearUsers => exact h.of_eq rfl rfl

/-- In every run whose commands keep the identity, every state of the
connection agrees with the ledger. -/
theorem session_identity (tmp : Text) (sock : RawSocket) (inputs : List Input)
    (hkeeps : Along Audited.step (fun a input => keepsIdentity a input = true)
      (Audited.start tmp sock) inputs) :
    Always Audited.step (SessionIdentity tmp) (Audited.start tmp sock) inputs := by
  apply always_of_invariant_along (I := fun a => Registered tmp a ∧ SessionIdentity tmp a)
    (P := fun a input => keepsIdentity a input = true)
  · rintro a input b ⟨hreg, hidentity⟩ hinput hstep
    obtain rfl : a.next input = b := Option.some.inj hstep
    exact ⟨hreg.next input, sessionIdentity_next hreg hidentity hinput⟩
  · exact fun a h => h.2
  · refine ⟨⟨rfl, ?_⟩, ?_⟩
    · intro user hmem
      simp [Audited.start, Connection.start] at hmem
    · intro hauth
      simp [Audited.start, Connection.start] at hauth
  · exact hkeeps

theorem session_identity_alice :
    Always Audited.step (SessionIdentity "/tmp/ms") (Audited.start "/tmp/ms" 4) aliceLogin :=
  session_identity "/tmp/ms" 4 aliceLogin (by decide)

def aliceThenBob : List Input :=
  aliceLogin ++
    [.addUser "bob" "hidden" "/bob" FtpPermission.read, .line "USER bob" grantingOs]

/-- After her log-in, `USER bob` leaves alice's permissions under bob's name. -/
theorem session_identity_lost :
    ¬ ∀ tmp sock inputs,
      Always Audited.step (SessionIdentity tmp) (Audited.start tmp sock) inputs := by
  intro h
  let final := aliceThenBob.foldl Audited.next (Audited.start "/tmp/ms" 4)
  obtain ⟨grant, hgrant, -, huser, -⟩ :=
    (h "/tmp/ms" 4 aliceThenBob).of_run (t := final) rfl (by decide)
  have halice : final.ledger.granted =
      some ⟨⟨"alice", "secret", "/alice", FtpPermission.all, false⟩, some "alice"⟩ := rfl
  obtain rfl := Option.some.inj (halice.symm.trans hgrant)
  exact absurd huser (by decide)

end MockServices.Ftp
