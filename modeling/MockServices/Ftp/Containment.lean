import MockServices.Ftp.Connection

/-!
# What the six path commands hand to the file system

LIST, RETR, STOR, DELE, MKD and RMD reach the file system only with a
non-empty answer of `resolve`, and only once their guards have passed.
The answer lies within the account's directory except for one kind of
argument: one that leaves the directory upwards and enters a sibling
whose name extends the directory's own.
-/

namespace MockServices.Ftp

open Foundations Foundations.SegmentPath

/-- The path an effect hands to the file system. -/
def Effect.path? : Effect → Option Text
  | .opendir path | .ifstream path | .ofstream path => some path
  | .unlink path | .mkdir path | .rmdir path => some path
  | _ => none

def handedPaths (effects : List Effect) : List Text := effects.filterMap Effect.path?

/-- What a path command asks for before it touches the file system. -/
structure PathNeed where
  perm : FtpPermission
  emptyOk : Bool
  transfer : Bool

def Verb.pathNeed : Verb → Option PathNeed
  | .list => some ⟨FtpPermission.read, true, true⟩
  | .retr => some ⟨FtpPermission.read, false, true⟩
  | .stor => some ⟨FtpPermission.write, false, true⟩
  | .dele | .rmd | .mkd => some ⟨FtpPermission.write, false, false⟩
  | _ => none

def DataReady (os : Os) (client : Client) : Prop :=
  client.pasv = true ∧ client.dataSock ≠ none ∧ os.accept ≠ none

/-- The command passes its guards and, for a transfer, gets its data connection. -/
structure Admitted (os : Os) (client : Client) (need : PathNeed) (arg : Text) : Prop where
  auth : client.auth = true
  permits : client.permits need.perm = true
  arg_ne_nil : need.emptyOk = false → arg ≠ []
  dataReady : need.transfer = true → DataReady os client

/-- The command is admitted and its argument leads into an extended sibling. -/
def Escapes (os : Os) (client : Client) (root : NormalRoot) (verb : Verb) (arg : Text) : Prop :=
  ∃ need, verb.pathNeed = some need ∧ Admitted os client need arg ∧
    IntoExtendedSibling root.names (relativeMove client.cwd arg)

@[simp] theorem handedPaths_nil : handedPaths [] = [] := rfl

@[simp] theorem handedPaths_append (xs ys : List Effect) :
    handedPaths (xs ++ ys) = handedPaths xs ++ handedPaths ys := List.filterMap_append

@[simp] theorem handedPaths_ftpSend (client : Client) (msg : Text) :
    handedPaths (ftpSend client msg) = [] := by
  unfold ftpSend
  split <;> rfl

@[simp] theorem handedPaths_cons (e : Effect) (xs : List Effect) :
    handedPaths (e :: xs) = e.path?.toList ++ handedPaths xs := by
  cases h : e.path? <;> simp [handedPaths, h]

attribute [simp] Effect.path?

theorem handedPaths_of_forall {xs : List Effect} (h : ∀ e ∈ xs, e.path? = none) :
    handedPaths xs = [] := List.filterMap_eq_nil_iff.mpr h

open Classical in
theorem handedPaths_withPath (client : Client) (need : FtpPermission) (emptyOk : Bool)
    (invalid arg : Text) (next : Text → Outcome) :
    handedPaths (withPath client need emptyOk invalid arg next).2 =
      if client.auth = true ∧ client.permits need = true ∧ (emptyOk = false → arg ≠ []) ∧
          resolve client.phyRoot client.cwd arg ≠ [] then
        handedPaths (next (resolve client.phyRoot client.cwd arg)).2
      else [] := by
  unfold withPath requireAuth requirePerm
  by_cases hauth : client.auth = true
  · by_cases hperm : client.permits need = true
    · by_cases harg : (!emptyOk && arg.isEmpty) = true
      · have hnot : ¬ (emptyOk = false → arg ≠ []) := by
          intro h
          simp only [Bool.and_eq_true, Bool.not_eq_true', List.isEmpty_iff] at harg
          exact h harg.1 harg.2
        simp [hauth, hperm, harg, hnot]
      · have hok : emptyOk = false → arg ≠ [] := by
          rintro rfl rfl
          simp at harg
        by_cases hres : resolve client.phyRoot client.cwd arg = []
        · simp [hauth, hperm, harg, hres]
        · simp only [hauth, hperm, harg, hres, if_true, if_false, Bool.false_eq_true, ne_eq,
            not_false_eq_true, and_true, true_and, if_pos hok]
    · simp [hauth, hperm]
  · simp [hauth]

open Classical in
theorem handedPaths_withData (os : Os) (client : Client) (transfer : List Effect × Text) :
    handedPaths (withData os client transfer).2 =
      if DataReady os client then handedPaths transfer.1 else [] := by
  unfold withData DataReady
  cases hpasv : client.pasv with
  | false => simp [acceptData, hpasv]
  | true =>
      cases hlisten : client.dataSock with
      | none => simp [acceptData, hpasv, hlisten]
      | some listener =>
          cases haccept : os.accept with
          | none => simp [acceptData, hpasv, hlisten, haccept]
          | some dataSock => simp [acceptData, hpasv, hlisten, haccept]

@[simp] theorem handedPaths_map_dataSend (xs : List Text) :
    handedPaths (xs.map .dataSend) = [] :=
  handedPaths_of_forall fun e he => by
    obtain ⟨b, -, rfl⟩ := List.mem_map.mp he
    rfl

@[simp] theorem handedPaths_map_fileWrite (xs : List Text) :
    handedPaths (xs.map .fileWrite) = [] :=
  handedPaths_of_forall fun e he => by
    obtain ⟨b, -, rfl⟩ := List.mem_map.mp he
    rfl

theorem handedPaths_listTransfer (os : Os) (path : Text) :
    handedPaths (listTransfer os path).1 = [path] := rfl

theorem handedPaths_retrTransfer (os : Os) (path : Text) :
    handedPaths (retrTransfer os path).1 = [path] := by
  unfold retrTransfer
  split <;> simp

theorem handedPaths_storTransfer (os : Os) (path : Text) :
    handedPaths (storTransfer os path).1 = [path] := by
  unfold storTransfer
  split <;> simp

theorem admitted_iff {os : Os} {client : Client} {need : PathNeed} {arg : Text} :
    Admitted os client need arg ↔ client.auth = true ∧ client.permits need.perm = true ∧
      (need.emptyOk = false → arg ≠ []) ∧ (need.transfer = true → DataReady os client) :=
  ⟨fun h => ⟨h.1, h.2, h.3, h.4⟩, fun h => ⟨h.1, h.2.1, h.2.2.1, h.2.2.2⟩⟩

open Classical in
/-- The six commands hand over the resolved path and nothing else. -/
theorem handedPaths_command (os : Os) (server : Server) (client : Client) (arg : Text)
    {verb : Verb} {need : PathNeed} (hneed : verb.pathNeed = some need) :
    handedPaths (command os server client arg (some verb)).2.2 =
      if Admitted os client need arg ∧ resolve client.phyRoot client.cwd arg ≠ [] then
        [resolve client.phyRoot client.cwd arg]
      else [] := by
  rw [admitted_iff]
  cases verb with
  | list =>
      obtain rfl := Option.some.inj hneed
      simp only [command, listCmd, handedPaths_withPath, handedPaths_withData,
        handedPaths_listTransfer]
      split_ifs <;> simp_all
  | retr =>
      obtain rfl := Option.some.inj hneed
      simp only [command, retrCmd, handedPaths_withPath, handedPaths_withData,
        handedPaths_retrTransfer]
      split_ifs <;> simp_all
  | stor =>
      obtain rfl := Option.some.inj hneed
      simp only [command, storCmd, handedPaths_withPath, handedPaths_withData,
        handedPaths_storTransfer]
      split_ifs <;> simp_all
  | dele | rmd | mkd =>
      obtain rfl := Option.some.inj hneed
      simp only [command, deleCmd, rmdCmd, mkdCmd, handedPaths_withPath, callOnPath]
      split_ifs <;> simp_all
  | _ => simp [Verb.pathNeed] at hneed

/-- One command in any state whose directory is in normal form. -/
theorem command_within_iff (os : Os) (server : Server) (client : Client) (root : NormalRoot)
    (hroot : client.phyRoot = root.text) (arg : Text) {verb : Verb} {need : PathNeed}
    (hneed : verb.pathNeed = some need) :
    (∀ path ∈ handedPaths (command os server client arg (some verb)).2.2, Within root path) ↔
      ¬ Escapes os client root verb arg := by
  have hescapes : Escapes os client root verb arg ↔ Admitted os client need arg ∧
      IntoExtendedSibling root.names (relativeMove client.cwd arg) := by
    constructor
    · rintro ⟨need', hneed', hadmitted, hinto⟩
      obtain rfl := Option.some.inj (hneed.symm.trans hneed')
      exact ⟨hadmitted, hinto⟩
    · exact fun h => ⟨need, hneed, h⟩
  have hwithin := resolve_within_iff root client.cwd arg
  rw [hescapes, handedPaths_command os server client arg hneed, hroot]
  by_cases hadmitted : Admitted os client need arg
  · by_cases hres : resolve root.text client.cwd arg = []
    · simpa [hadmitted, hres] using hwithin
    · simpa [hadmitted, hres] using hwithin
  · simp [hadmitted]

/-- The input does not send an admitted path command into an extended sibling. -/
def Confined (conn : Connection) (input : Input) : Prop :=
  ∀ line os, input = .line line os → ∀ root : NormalRoot, conn.client.phyRoot = root.text →
    ∀ verb, lineVerb line = some verb → ¬ Escapes os conn.client root verb (lineArg line)

/-- Containment of the six path commands. In every reachable state, with
any working directory, a command hands over only paths within the
account's directory exactly when it does not escape; and a run whose
commands are all confined hands over nothing else. -/
theorem path_commands_contained_iff (tmp : Text) (sock : RawSocket) :
    (∀ inputs conn, run step (Connection.start tmp sock) inputs = some conn →
      ∀ root : NormalRoot, conn.client.phyRoot = root.text →
      ∀ cwd line os verb, lineVerb line = some verb → verb.pathNeed ≠ none →
        ((∀ path ∈ handedPaths
            (Connection.effects ⟨conn.server, { conn.client with cwd }⟩ os line),
          Within root path) ↔
        ¬ Escapes os { conn.client with cwd } root verb (lineArg line))) ∧
    (∀ inputs, Along step Confined (Connection.start tmp sock) inputs →
      ∀ before line os after, inputs = before ++ .line line os :: after →
      ∀ conn, run step (Connection.start tmp sock) before = some conn →
      ∀ root : NormalRoot, conn.client.phyRoot = root.text →
      ∀ verb, lineVerb line = some verb → verb.pathNeed ≠ none →
        ∀ path ∈ handedPaths (conn.effects os line), Within root path) := by
  constructor
  · intro inputs conn _ root hroot cwd line os verb hverb hpath
    obtain ⟨need, hneed⟩ := Option.ne_none_iff_exists'.mp hpath
    rw [Connection.effects, dispatch_eq, hverb]
    exact command_within_iff os conn.server { conn.client with cwd } root hroot _ hneed
  · rintro inputs hall before line os after rfl conn hrun root hroot verb hverb hpath
    obtain ⟨need, hneed⟩ := Option.ne_none_iff_exists'.mp hpath
    have hconfined := (hall.append hrun).1 line os rfl root hroot verb hverb
    rw [Connection.effects, dispatch_eq, hverb]
    exact (command_within_iff os conn.server conn.client root hroot _ hneed).mpr hconfined

/-! ## A run into an extended sibling -/

def aliceRoot : NormalRoot where
  names := ["tmp", "ms", "alice"]
  isName := by decide
  backslash_notMem := by decide

theorem path_commands_contained_iff_alice :
    (∀ path ∈ handedPaths (aliceSession.effects grantingOs "DELE notes"), Within aliceRoot path) ↔
      ¬ Escapes grantingOs aliceSession.client aliceRoot .dele (lineArg "DELE notes") :=
  (path_commands_contained_iff "/tmp/ms" 4).1 aliceLogin aliceSession rfl aliceRoot (by decide)
    [] "DELE notes" grantingOs .dele (by decide) (by decide)

/-- `DELE ../alicex/secret` in alice's session names a file outside her directory. -/
theorem path_commands_not_contained :
    ¬ ∀ tmp sock inputs conn, run step (Connection.start tmp sock) inputs = some conn →
      ∀ root : NormalRoot, conn.client.phyRoot = root.text →
      ∀ cwd line os verb, lineVerb line = some verb → verb.pathNeed ≠ none →
        ∀ path ∈ handedPaths (Connection.effects ⟨conn.server, { conn.client with cwd }⟩ os line),
          Within root path := by
  intro h
  have hwithin := h "/tmp/ms" 4 aliceLogin aliceSession rfl aliceRoot (by decide) []
    "DELE ../alicex/secret" grantingOs .dele (by decide) (by decide) "/tmp/ms/alicex/secret"
    (by decide)
  exact absurd hwithin (by decide)

end MockServices.Ftp
