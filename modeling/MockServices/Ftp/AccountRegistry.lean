import MockServices.Ftp.LoginIdentity

/-!
# The account registry

The registry is a list of records. `add_user` changes the record of its
name where there is one, `add_anonymous_user` always appends, and both
look-ups stop at the first match. So a named account is the one given
last, but the anonymous account is the one given first.
-/

namespace MockServices.Ftp

open Foundations

inductive Registration where
  | addUser (name pass root : Text) (perm : FtpPermission)
  | addAnonymousUser (root : Text) (perm : FtpPermission)
  | clearUsers

def register (users : List User) : Registration → List User
  | .addUser name pass root perm => addUser name pass root perm users
  | .addAnonymousUser root perm => addAnonymousUser root perm users
  | .clearUsers => []

/-- The records after a sequence of calls. -/
def registered (calls : List Registration) : List User := calls.foldl register []

/-- The call gives the account `name`, or ends all accounts. -/
def Registration.Replaces (name : Text) : Registration → Prop
  | .addUser other _ _ _ => other = name
  | .addAnonymousUser _ _ => False
  | .clearUsers => True

def Registration.ReplacesAnonymous : Registration → Prop
  | .addUser _ _ _ _ => False
  | .addAnonymousUser _ _ | .clearUsers => True

/-- The most recent `add_user` for the name since the last `clear_users`. -/
def GivenLast (calls : List Registration) (name pass : Text) (perm : FtpPermission) : Prop :=
  Since (fun call => ∃ root, call = .addUser name pass root perm) (·.Replaces name) calls

def AnonymousLast (calls : List Registration) (perm : FtpPermission) : Prop :=
  Since (fun call => ∃ root, call = .addAnonymousUser root perm) (·.ReplacesAnonymous) calls

/-- The permissions of the anonymous accounts since the last `clear_users`,
the first one first. -/
def anonymousPerms (calls : List Registration) : List FtpPermission :=
  calls.foldl (fun perms call => match call with
    | .addUser _ _ _ _ => perms
    | .addAnonymousUser _ perm => perms ++ [perm]
    | .clearUsers => []) []

/-- What the client is after USER on a new connection. -/
def afterUser (os : Os) (server : Server) (sock : RawSocket) (name : Text) : Server × Client :=
  let (server, client, _) := dispatch os server { sock := some sock } (txt "USER " ++ name)
  (server, client)

/-- What the client is after USER and PASS on a new connection. -/
def afterPass (os os' : Os) (server : Server) (sock : RawSocket) (name pass : Text) : Client :=
  let (server, client) := afterUser os server sock name
  (dispatch os' server client (txt "PASS " ++ pass)).2.1

/-- The latest registration wins. -/
structure LatestWins (calls : List Registration) : Prop where
  named : ∀ server : Server, server.users = registered calls → ∀ os os' sock name pass,
    name ≠ [] → name ≠ txt "anonymous" →
      ((afterPass os os' server sock name pass).auth = true ↔
        ∃ perm, GivenLast calls name pass perm) ∧
      ∀ perm, GivenLast calls name pass perm →
        (afterPass os os' server sock name pass).perm = perm
  anonymous : ∀ server : Server, server.users = registered calls → ∀ os sock,
    (∀ pass perm, ¬ GivenLast calls (txt "anonymous") pass perm) →
      ((afterUser os server sock (txt "anonymous")).2.auth = true ↔
        ∃ perm, AnonymousLast calls perm) ∧
      ∀ perm, AnonymousLast calls perm →
        (afterUser os server sock (txt "anonymous")).2.perm = perm

/-! ## Named accounts -/

theorem registered_concat (calls : List Registration) (call : Registration) :
    registered (calls ++ [call]) = register (registered calls) call :=
  List.foldl_concat ..

theorem findAccount_cons (user : User) (users : List User) (name : Text) :
    findAccount (user :: users) name =
      if user.name = name ∧ ¬ user.anon then some user else findAccount users name := by
  by_cases h : user.name = name ∧ ¬ user.anon
  · rw [if_pos h, findAccount, List.find?_cons_of_pos (by simpa using h)]
  · rw [if_neg h, findAccount, List.find?_cons_of_neg (by simpa using h), findAccount]

theorem findAccount_addUser (name pass root : Text) (perm : FtpPermission) (users : List User)
    (other : Text) : findAccount (addUser name pass root perm users) other =
      if name = other then some ⟨name, pass, root, perm, false⟩ else findAccount users other := by
  induction users with
  | nil => by_cases h : name = other <;> simp [addUser, findAccount, h]
  | cons user users ih =>
      by_cases hsame : user.name = name ∧ ¬ user.anon
      · rw [addUser, if_pos hsame, findAccount_cons, findAccount_cons]
        obtain ⟨rfl, hanon⟩ := hsame
        have hfalse : user.anon = false := by simpa using hanon
        by_cases h : user.name = other <;> simp [h, hfalse]
      · rw [addUser, if_neg hsame, findAccount_cons, findAccount_cons, ih]
        by_cases h : name = other
        · subst h
          rw [if_neg hsame, if_pos rfl, if_pos rfl]
        · rw [if_neg h, if_neg h]

theorem findAccount_addAnonymousUser (root : Text) (perm : FtpPermission) (users : List User)
    (name : Text) :
    findAccount (addAnonymousUser root perm users) name = findAccount users name := by
  simp [findAccount, addAnonymousUser, List.find?_append]

/-- The registry refines the map of the latest registrations. -/
theorem findAccount_registered (calls : List Registration) (name pass : Text)
    (perm : FtpPermission) :
    (∃ user, findAccount (registered calls) name = some user ∧ user.pass = pass ∧
      user.perm = perm) ↔ GivenLast calls name pass perm := by
  induction calls using List.reverseRecOn with
  | nil => exact iff_of_false (by simp [registered, findAccount]) not_since_nil
  | append_singleton calls call ih =>
      rw [registered_concat, GivenLast, since_concat_iff, ← GivenLast, ← ih]
      cases call with
      | addUser other pass' root perm' =>
          rw [register, findAccount_addUser]
          by_cases h : other = name
          · subst h
            simp [Registration.Replaces]
          · simp [Registration.Replaces, h]
      | addAnonymousUser root perm' =>
          rw [register, findAccount_addAnonymousUser]
          simp [Registration.Replaces]
      | clearUsers => simp [register, findAccount, Registration.Replaces]

/-! ## The anonymous account -/

theorem anonymousPerms_concat (calls : List Registration) (call : Registration) :
    anonymousPerms (calls ++ [call]) = match call with
      | .addUser _ _ _ _ => anonymousPerms calls
      | .addAnonymousUser _ perm => anonymousPerms calls ++ [perm]
      | .clearUsers => [] :=
  List.foldl_concat ..

theorem filter_anon_addUser (name pass root : Text) (perm : FtpPermission) (users : List User) :
    (addUser name pass root perm users).filter User.anon = users.filter User.anon := by
  induction users with
  | nil => rfl
  | cons user users ih =>
      by_cases hsame : user.name = name ∧ ¬ user.anon
      · rw [addUser, if_pos hsame]
        simp [hsame.2]
      · rw [addUser, if_neg hsame, List.filter_cons, List.filter_cons, ih]

theorem anonymous_registered (calls : List Registration) :
    ((registered calls).filter User.anon).map User.perm = anonymousPerms calls := by
  induction calls using List.reverseRecOn with
  | nil => rfl
  | append_singleton calls call ih =>
      rw [registered_concat, anonymousPerms_concat]
      cases call with
      | addUser name pass root perm => rw [register, filter_anon_addUser, ih]
      | addAnonymousUser root perm => simp [register, addAnonymousUser, ih]
      | clearUsers => rfl

theorem anonymousLast_iff (calls : List Registration) (perm : FtpPermission) :
    AnonymousLast calls perm ↔ (anonymousPerms calls).getLast? = some perm := by
  induction calls using List.reverseRecOn with
  | nil => exact iff_of_false not_since_nil (by simp [anonymousPerms])
  | append_singleton calls call ih =>
      rw [AnonymousLast, since_concat_iff, ← AnonymousLast, ih, anonymousPerms_concat]
      cases call with
      | addUser name pass root perm' => simp [Registration.ReplacesAnonymous]
      | addAnonymousUser root perm' => simp [Registration.ReplacesAnonymous]
      | clearUsers => simp [Registration.ReplacesAnonymous]

theorem anon_name_registered (calls : List Registration) :
    ∀ user ∈ registered calls, user.anon = true → user.name = txt "anonymous" := by
  induction calls using List.reverseRecOn with
  | nil => simp [registered]
  | append_singleton calls call ih =>
      rw [registered_concat]
      cases call with
      | addUser name pass root perm =>
          intro user huser hanon
          rcases mem_addUser huser with hmem | hfalse
          · exact ih user hmem hanon
          · simp [hfalse] at hanon
      | addAnonymousUser root perm =>
          intro user huser hanon
          rcases List.mem_append.mp huser with hmem | hmem
          · exact ih user hmem hanon
          · rw [List.mem_singleton.mp hmem]
      | clearUsers => simp [register]

/-! ## Logging in -/

/-- USER with another name than `anonymous` looks for the named account. -/
theorem findUser_of_ne {users : List User} {name : Text}
    (hanon : ∀ user ∈ users, user.anon = true → user.name = txt "anonymous")
    (hname : name ≠ txt "anonymous") : findUser users name = findAccount users name := by
  induction users with
  | nil => rfl
  | cons user users ih =>
      have htail := ih fun other hother => hanon other (List.mem_cons_of_mem _ hother)
      have hsame : (user.name = name ∨ (user.anon = true ∧ name = txt "anonymous")) ↔
          (user.name = name ∧ ¬ user.anon = true) := by
        constructor
        · rintro (heq | ⟨-, heq⟩)
          · exact ⟨heq, fun h => hname (heq ▸ hanon user List.mem_cons_self h)⟩
          · exact absurd heq hname
        · exact fun h => Or.inl h.1
      rw [findUser, findAccount, List.find?_cons, List.find?_cons, ← findUser, ← findAccount,
        htail]
      simp only [hsame]

/-- USER anonymous finds the first anonymous account when no other has that
name. -/
theorem findUser_anonymous {users : List User}
    (h : findAccount users (txt "anonymous") = none) :
    findUser users (txt "anonymous") = (users.filter User.anon).head? := by
  induction users with
  | nil => rfl
  | cons user users ih =>
      have hhead : ¬ (user.name = txt "anonymous" ∧ ¬ user.anon = true) := by
        intro hpos
        rw [findAccount_cons, if_pos hpos] at h
        cases h
      rw [findAccount_cons, if_neg hhead] at h
      cases hanon : user.anon with
      | true =>
          rw [findUser, List.find?_cons_of_pos (by simp [hanon]), List.filter_cons_of_pos hanon]
          rfl
      | false =>
          have hne : user.name ≠ txt "anonymous" := fun heq => hhead ⟨heq, by simp [hanon]⟩
          rw [findUser, List.find?_cons_of_neg (by simp [hanon, hne]), ← findUser, ih h,
            List.filter_cons_of_neg (by simp [hanon])]

theorem dispatch_userCmd (os : Os) (server : Server) (client : Client) (name : Text) :
    dispatch os server client (txt "USER " ++ name) = userCmd server client name := by
  rw [dispatch_eq]
  rfl

theorem dispatch_passCmd (os : Os) (server : Server) (client : Client) (pass : Text) :
    dispatch os server client (txt "PASS " ++ pass) = passCmd server client pass := by
  rw [dispatch_eq]
  rfl

theorem afterUser_eq (os : Os) (server : Server) (sock : RawSocket) (name : Text) :
    afterUser os server sock name = ((userCmd server { sock := some sock } name).1,
      (userCmd server { sock := some sock } name).2.1) := by
  unfold afterUser
  rw [dispatch_userCmd]

/-- USER and PASS for a name without an anonymous account log in to the
record of that name, if its password is the one given. -/
theorem afterPass_named (os os' : Os) {server : Server} (sock : RawSocket) {name : Text}
    (pass : Text) (hname : name ≠ [])
    (hfind : findUser server.users name = findAccount server.users name) :
    ((afterPass os os' server sock name pass).auth = true ↔
        ∃ user, findAccount server.users name = some user ∧ user.pass = pass) ∧
      ∀ user, findAccount server.users name = some user → user.pass = pass →
        (afterPass os os' server sock name pass).perm = user.perm := by
  unfold afterPass
  rw [afterUser_eq]
  cases haccount : findAccount server.users name with
  | none =>
      have huser : userCmd server { sock := some sock } name =
          (server, { sock := some sock },
            ftpSend { sock := some sock } "530 Login incorrect\r\n") := by
        simp only [userCmd, hfind, haccount]
      simp only [huser, dispatch_passCmd, passCmd]
      simp
  | some user =>
      obtain ⟨rfl, hanon⟩ := findAccount_spec haccount
      have huser : userCmd server { sock := some sock } user.name =
          (server, { sock := some sock, user := user.name },
            ftpSend { sock := some sock, user := user.name } "331 Password required\r\n") := by
        simp only [userCmd, hfind, haccount, hanon]
        rfl
      simp only [huser, dispatch_passCmd, passCmd, hname, haccount]
      by_cases hpass : user.pass = pass
      · simp [hpass]
      · simp [hpass]

theorem afterUser_anonymous (os : Os) {server : Server} (sock : RawSocket)
    (hfind : findUser server.users (txt "anonymous") =
      (server.users.filter User.anon).head?) :
    ((afterUser os server sock (txt "anonymous")).2.auth = true ↔
        ∃ user, (server.users.filter User.anon).head? = some user) ∧
      ∀ user, (server.users.filter User.anon).head? = some user →
        (afterUser os server sock (txt "anonymous")).2.perm = user.perm := by
  rw [afterUser_eq]
  cases hhead : (server.users.filter User.anon).head? with
  | none => simp [userCmd, hfind, hhead]
  | some user =>
      have hanon : user.anon = true := (List.mem_filter.mp (List.mem_of_head? hhead)).2
      simp [userCmd, hfind, hhead, hanon]

/-! ## The latest registration -/

/-- The named accounts always are those given last. -/
theorem named_latest (calls : List Registration) {server : Server}
    (hserver : server.users = registered calls) (os os' : Os) (sock : RawSocket)
    {name : Text} (pass : Text) (hname : name ≠ []) (hanonymous : name ≠ txt "anonymous") :
    ((afterPass os os' server sock name pass).auth = true ↔
        ∃ perm, GivenLast calls name pass perm) ∧
      ∀ perm, GivenLast calls name pass perm →
        (afterPass os os' server sock name pass).perm = perm := by
  have hfind : findUser server.users name = findAccount server.users name := by
    apply findUser_of_ne _ hanonymous
    rw [hserver]
    exact anon_name_registered calls
  obtain ⟨hauth, hperm⟩ := afterPass_named os os' sock pass hname hfind
  rw [hserver] at hauth hperm
  constructor
  · rw [hauth]
    constructor
    · rintro ⟨user, haccount, hpass⟩
      exact ⟨user.perm, (findAccount_registered calls name pass user.perm).mp
        ⟨user, haccount, hpass, rfl⟩⟩
    · rintro ⟨perm, hgiven⟩
      obtain ⟨user, haccount, hpass, -⟩ := (findAccount_registered calls name pass perm).mpr hgiven
      exact ⟨user, haccount, hpass⟩
  · intro perm hgiven
    obtain ⟨user, haccount, hpass, rfl⟩ := (findAccount_registered calls name pass perm).mpr hgiven
    exact hperm user haccount hpass

/-- The anonymous account is the one given first. -/
theorem anonymous_first (calls : List Registration) {server : Server}
    (hserver : server.users = registered calls) (os : Os) (sock : RawSocket)
    (hnone : ∀ pass perm, ¬ GivenLast calls (txt "anonymous") pass perm) :
    ((afterUser os server sock (txt "anonymous")).2.auth = true ↔ anonymousPerms calls ≠ []) ∧
      ∀ perm, (anonymousPerms calls).head? = some perm →
        (afterUser os server sock (txt "anonymous")).2.perm = perm := by
  have hno : findAccount (registered calls) (txt "anonymous") = none := by
    rw [Option.eq_none_iff_forall_ne_some]
    intro user haccount
    exact hnone user.pass user.perm ((findAccount_registered calls _ _ _).mp
      ⟨user, haccount, rfl, rfl⟩)
  have hfind : findUser server.users (txt "anonymous") = (server.users.filter User.anon).head? :=
    findUser_anonymous (hserver ▸ hno)
  obtain ⟨hauth, hperm⟩ := afterUser_anonymous os sock hfind
  rw [hserver] at hauth hperm
  rw [hauth, ← anonymous_registered]
  constructor
  · cases (registered calls).filter User.anon with
    | nil => simp
    | cons user users => simp
  · intro perm hhead
    rw [List.head?_map, Option.map_eq_some_iff] at hhead
    obtain ⟨user, hhead, rfl⟩ := hhead
    exact hperm user hhead

theorem LatestWins.head?_eq_getLast? {calls : List Registration} (h : LatestWins calls)
    (hnone : ∀ pass perm, ¬ GivenLast calls (txt "anonymous") pass perm) :
    (anonymousPerms calls).head? = (anonymousPerms calls).getLast? := by
  let server : Server := { tmp := [], users := registered calls }
  have hserver : server.users = registered calls := rfl
  cases hlast : (anonymousPerms calls).getLast? with
  | none => rw [List.getLast?_eq_none_iff.mp hlast, List.head?_nil]
  | some last =>
      cases hhead : (anonymousPerms calls).head? with
      | none =>
          rw [List.head?_eq_none_iff.mp hhead] at hlast
          cases hlast
      | some first =>
          have hfirst := (anonymous_first calls hserver grantingOs 0 hnone).2
            first hhead
          have hlatest := (h.anonymous server rfl grantingOs 0 hnone).2 last
            ((anonymousLast_iff calls last).mpr hlast)
          rw [← hfirst, hlatest]

/-- The latest registration wins exactly when the anonymous accounts given
since the last `clear_users` begin and end with the same permission, or a
password account has taken their name. -/
theorem latestWins_iff (calls : List Registration) : LatestWins calls ↔
    (∃ pass perm, GivenLast calls (txt "anonymous") pass perm) ∨
      (anonymousPerms calls).head? = (anonymousPerms calls).getLast? := by
  constructor
  · intro h
    by_cases hnone : ∃ pass perm, GivenLast calls (txt "anonymous") pass perm
    · exact Or.inl hnone
    · apply Or.inr
      apply h.head?_eq_getLast?
      exact fun pass perm hgiven => hnone ⟨pass, perm, hgiven⟩
  · intro h
    refine ⟨fun server hserver os os' sock name pass hname hanonymous =>
      named_latest calls hserver os os' sock pass hname hanonymous, ?_⟩
    intro server hserver os sock hnone
    have hsame : (anonymousPerms calls).head? = (anonymousPerms calls).getLast? := by
      rcases h with ⟨pass, perm, hgiven⟩ | hsame
      · exact absurd hgiven (hnone pass perm)
      · exact hsame
    obtain ⟨hauth, hperm⟩ := anonymous_first calls hserver os sock hnone
    constructor
    · rw [hauth]
      simp only [anonymousLast_iff]
      rw [← Option.isSome_iff_exists, List.getLast?_isSome]
    · intro perm hlast
      apply hperm
      rw [hsame]
      exact (anonymousLast_iff calls perm).mp hlast

/-- The second anonymous account has all permissions, the first only read. -/
theorem second_anonymous_ignored : ¬ LatestWins
    [.addAnonymousUser "/" FtpPermission.read, .addAnonymousUser "/" FtpPermission.all] := by
  intro h
  have hsame := h.head?_eq_getLast? (by
    rintro pass perm ⟨before, call, after, hcalls, ⟨root, rfl⟩, -⟩
    have hmem : Registration.addUser (txt "anonymous") pass root perm ∈
        [Registration.addAnonymousUser "/" FtpPermission.read,
          .addAnonymousUser "/" FtpPermission.all] := by
      rw [hcalls]
      simp
    simp at hmem)
  revert hsame
  decide

end MockServices.Ftp
