import MockServices.Foundations.Blocks
import MockServices.Ftp.Service

/-!
# What 226 promises

The transfers hand their bytes to `send` and to the file, call by call, and
look at no result. Here the calls may take less than they are offered,
`recv` may fail and so may writing to the file.
-/

namespace MockServices.Ftp

open Foundations

/-- What the calls of one transfer answer: the number of bytes that each
`send` takes, if it does not fail, and the position from which on nothing
reaches the file. A `send` may be told to read `beyond` its text. -/
structure DataCalls where
  taken : ℕ → Option ℕ
  beyond : Text := []
  failsAt : Option ℕ := none

/-- `static_cast<int>` of a length, as the `size_t` that `send` makes of it. -/
def sendLength (length : ℕ) : ℕ :=
  let low := length % 2 ^ 32
  if low < 2 ^ 31 then low else low + (2 ^ 64 - 2 ^ 32)

def Effect.sent : Effect → Option Text
  | .dataSend bytes => some bytes
  | _ => none

def Effect.written : Effect → Option Text
  | .fileWrite bytes => some bytes
  | _ => none

namespace DataCalls

variable (d : DataCalls)

def count (k : ℕ) : ℕ := (d.taken k).getD 0

def offered (bytes : Text) : Text := (bytes ++ d.beyond).take (sendLength bytes.length)

/-- The bytes that the data connection has taken. -/
def accepted (effects : List Effect) : Text :=
  copied d.count ((effects.filterMap Effect.sent).map d.offered)

/-- The content of the file when it is closed. -/
def stored (effects : List Effect) : Text :=
  let bytes := (effects.filterMap Effect.written).flatten
  match d.failsAt with
  | none => bytes
  | some position => bytes.take position

end DataCalls

/-- The client closed its connection; `recv` did not fail. -/
def EndsOrderly : List (Option Text) → Prop
  | some (_ :: _) :: rest => EndsOrderly rest
  | none :: _ => False
  | _ => True

def transferComplete : Text := "226 Transfer complete\r\n"

/-- What the transfer has moved is the file or the listing it is about. -/
def Moves (d : DataCalls) (os : Os) (resolvedPath : Text) (effects : List Effect) :
    Transfer → Prop
  | .list => d.accepted effects = dirListing os resolvedPath
  | .retr => ∃ content, os.ifstream resolvedPath = some content ∧ d.accepted effects = content
  | .stor => EndsOrderly os.recv ∧ d.stored effects = (receivedBlocks os.recv).flatten

/-- A transfer command is answered 226 only if it was complete. -/
def AnswersComplete (d : DataCalls) (os : Os) (server : Server) (client : Client) (line : Text) :
    Prop :=
  ∀ transfer, (lineVerb line).bind Transfer.ofVerb = some transfer →
    .reply transferComplete ∈ (dispatch os server client line).2.2 →
      Moves d os (resolve client.phyRoot client.cwd (lineArg line))
        (dispatch os server client line).2.2 transfer

/-- The calls of a transfer take what they are offered. -/
def Carries (d : DataCalls) (os : Os) (resolvedPath : Text) : Transfer → Prop
  | .list =>
      let listing := dirListing os resolvedPath
      listing.length ≤ sendLength listing.length ∧
        min (d.count 0) (d.offered listing).length = listing.length
  | .retr => ∀ content, os.ifstream resolvedPath = some content →
      ∀ (k : ℕ) (block : Text), (content.toChunks 8192)[k]? = some block →
        block.length ≤ d.count k
  | .stor => os.ofstream resolvedPath = true → EndsOrderly os.recv ∧
      ∀ position, d.failsAt = some position →
        (receivedBlocks os.recv).flatten.length ≤ position

/-- If the command gets a data connection, its calls take what they are offered. -/
def TransferCarried (d : DataCalls) (os : Os) (client : Client) (line : Text) : Prop :=
  ∀ listener transfer resolvedPath,
    waitsFor client line = some (listener, transfer, resolvedPath) →
      os.accept ≠ none → client.sock ≠ none → Carries d os resolvedPath transfer

section Replies

variable {os : Os} {server : Server} {client : Client} {line : Text} {transfer : Transfer}

theorem mem_ftpSend {msg text : Text} :
    .reply msg ∈ ftpSend client text ↔ client.sock ≠ none ∧ msg = text := by
  unfold ftpSend
  split <;> simp_all

/-- What the command of a transfer answers when its path does not resolve. -/
def Transfer.invalid : Transfer → Text
  | .list | .stor => "550 Invalid path\r\n"
  | .retr => "550 File not found\r\n"

theorem dispatch_transfer (h : (lineVerb line).bind Transfer.ofVerb = some transfer) :
    dispatch os server client line = (server,
      withPath client transfer.need (transfer == .list) transfer.invalid (lineArg line)
        fun resolvedPath => withData os client (transfer.run os resolvedPath)) := by
  obtain ⟨verb, hverb, hof⟩ := Option.bind_eq_some_iff.mp h
  rw [dispatch_eq, hverb]
  cases verb <;> cases hof <;> rfl

theorem mem_withPath {need : FtpPermission} {emptyOk : Bool} {invalid arg msg : Text}
    {next : Text → Outcome} (hauth : msg ≠ "530 Please login with USER and PASS\r\n")
    (hperm : msg ≠ "550 Permission denied\r\n") (hmissing : msg ≠ "501 Syntax error\r\n")
    (hinvalid : msg ≠ invalid)
    (h : .reply msg ∈ (withPath client need emptyOk invalid arg next).2) :
    client.auth = true ∧ client.permits need = true ∧ (emptyOk = true ∨ arg ≠ []) ∧
      resolve client.phyRoot client.cwd arg ≠ [] ∧
      .reply msg ∈ (next (resolve client.phyRoot client.cwd arg)).2 := by
  simp only [withPath, requireAuth, requirePerm] at h
  split at h
  · next hin =>
    split at h
    · next hpermits =>
      split at h
      · exact absurd (mem_ftpSend.mp h).2 hmissing
      · next harg =>
        split at h
        · exact absurd (mem_ftpSend.mp h).2 hinvalid
        · next hpath =>
          refine ⟨hin, hpermits, ?_, hpath, h⟩
          cases emptyOk <;> simp_all
    · exact absurd (mem_ftpSend.mp h).2 hperm
  · exact absurd (mem_ftpSend.mp h).2 hauth

/-- The effects of a transfer are calls only. -/
theorem reply_notMem_run (os : Os) (resolvedPath msg : Text) (transfer : Transfer) :
    .reply msg ∉ (transfer.run os resolvedPath).1 := by
  cases transfer with
  | list => simp [Transfer.run, listTransfer]
  | retr =>
      simp only [Transfer.run, retrTransfer]
      cases os.ifstream resolvedPath <;> simp
  | stor =>
      simp only [Transfer.run, storTransfer]
      split <;> simp

/-- The effects of a transfer that has got its data connection. -/
theorem effects_of_waitsFor {listener dataSock : RawSocket} {resolvedPath : Text}
    (hwaits : waitsFor client line = some (listener, transfer, resolvedPath))
    (haccept : os.accept = some dataSock) :
    (dispatch os server client line).2.2 = ftpSend client "150 Opening data connection\r\n" ++
      (.openSocket dataSock :: (closePasv client).2 ++ (transfer.run os resolvedPath).1 ++
        .closeSocket dataSock :: ftpSend client (transfer.run os resolvedPath).2) := by
  obtain ⟨hpasv, hlistener⟩ := waitsFor_listening hwaits
  rw [dispatch_of_waitsFor os server hwaits, withData_listening os _ hpasv hlistener, haccept]

theorem reply_notMem_closePasv (client : Client) (msg : Text) :
    .reply msg ∉ (closePasv client).2 := by
  simp [closePasv]

variable (server) in
/-- A transfer is answered 226 when it has got its data connection and its file. -/
theorem answered_iff (h : (lineVerb line).bind Transfer.ofVerb = some transfer) :
    .reply transferComplete ∈ (dispatch os server client line).2.2 ↔
      ∃ listener dataSock resolvedPath,
        waitsFor client line = some (listener, transfer, resolvedPath) ∧
          os.accept = some dataSock ∧ client.sock ≠ none ∧
            (transfer.run os resolvedPath).2 = transferComplete := by
  constructor
  · intro hmem
    have hinvalid : transferComplete ≠ transfer.invalid := by
      cases transfer <;> decide
    rw [dispatch_transfer h] at hmem
    obtain ⟨hauth, hperm, harg, hpath, hmem⟩ :=
      mem_withPath (by decide) (by decide) (by decide) hinvalid hmem
    by_cases hlistening : client.pasv = true ∧ client.dataSock ≠ none
    · obtain ⟨hpasv, hdata⟩ := hlistening
      obtain ⟨listener, hlistener⟩ := Option.ne_none_iff_exists'.mp hdata
      have hwaits : waitsFor client line =
          some (listener, transfer, resolve client.phyRoot client.cwd (lineArg line)) := by
        have hnamed : transfer = .list ∨ lineArg line ≠ [] := by simpa using harg
        simp only [waitsFor, h, hpasv, hlistener]
        exact if_pos ⟨hauth, hperm, hnamed, hpath⟩
      rw [withData_listening os _ hpasv hlistener] at hmem
      cases haccept : os.accept with
      | none =>
          rw [haccept] at hmem
          simp only [List.mem_append, mem_ftpSend, reply_notMem_closePasv, false_or] at hmem
          rcases hmem with ⟨-, hmem⟩ | ⟨-, hmem⟩ <;> exact absurd hmem (by decide)
      | some dataSock =>
          rw [haccept] at hmem
          simp only [List.mem_append, List.mem_cons, mem_ftpSend, reply_notMem_closePasv,
            reply_notMem_run, reduceCtorEq, false_or] at hmem
          rcases hmem with ⟨-, hmem⟩ | ⟨hsock, hreply⟩
          · exact absurd hmem (by decide)
          · exact ⟨listener, dataSock, _, hwaits, rfl, hsock, hreply.symm⟩
    · rw [withData_idle os _ hlistening] at hmem
      simp only [List.mem_append, mem_ftpSend] at hmem
      rcases hmem with ⟨-, hmem⟩ | ⟨-, hmem⟩ <;> exact absurd hmem (by decide)
  · rintro ⟨listener, dataSock, resolvedPath, hwaits, haccept, hsock, hreply⟩
    rw [effects_of_waitsFor hwaits haccept, hreply]
    simp [mem_ftpSend, hsock]

end Replies

section Effects

variable {d : DataCalls} {os : Os} {server : Server} {client : Client} {line : Text}
  {transfer : Transfer} {listener dataSock : RawSocket} {resolvedPath : Text}

theorem filterMap_ftpSend {f : Effect → Option Text} (hf : ∀ msg, f (.reply msg) = none)
    (client : Client) (msg : Text) : (ftpSend client msg).filterMap f = [] := by
  unfold ftpSend
  split
  · rfl
  · simp [hf]

/-- The bytes of a transfer command are those of its transfer. -/
theorem filterMap_effects {f : Effect → Option Text} (hreply : ∀ msg, f (.reply msg) = none)
    (hopen : ∀ sock, f (.openSocket sock) = none) (hclose : ∀ sock, f (.closeSocket sock) = none)
    (hwaits : waitsFor client line = some (listener, transfer, resolvedPath))
    (haccept : os.accept = some dataSock) :
    (dispatch os server client line).2.2.filterMap f =
      (transfer.run os resolvedPath).1.filterMap f := by
  have hpasv : (closePasv client).2.filterMap f = [] := by
    cases hdata : client.dataSock <;> simp [closePasv, hdata, hclose]
  rw [effects_of_waitsFor hwaits haccept]
  simp [filterMap_ftpSend hreply, hopen, hclose, hpasv]

theorem accepted_dispatch (d : DataCalls)
    (hwaits : waitsFor client line = some (listener, transfer, resolvedPath))
    (haccept : os.accept = some dataSock) :
    d.accepted (dispatch os server client line).2.2 =
      d.accepted (transfer.run os resolvedPath).1 := by
  rw [DataCalls.accepted, filterMap_effects (fun _ => rfl) (fun _ => rfl) (fun _ => rfl) hwaits
    haccept, DataCalls.accepted]

theorem stored_dispatch (d : DataCalls)
    (hwaits : waitsFor client line = some (listener, transfer, resolvedPath))
    (haccept : os.accept = some dataSock) :
    d.stored (dispatch os server client line).2.2 =
      d.stored (transfer.run os resolvedPath).1 := by
  rw [DataCalls.stored, filterMap_effects (fun _ => rfl) (fun _ => rfl) (fun _ => rfl) hwaits
    haccept, DataCalls.stored]

theorem moves_dispatch (d : DataCalls)
    (hwaits : waitsFor client line = some (listener, transfer, resolvedPath))
    (haccept : os.accept = some dataSock) {path : Text} :
    Moves d os path (dispatch os server client line).2.2 transfer ↔
      Moves d os path (transfer.run os resolvedPath).1 transfer := by
  cases transfer <;>
    simp only [Moves, accepted_dispatch d hwaits haccept, stored_dispatch d hwaits haccept]

theorem waitsFor_transfer
    (h : waitsFor client line = some (listener, transfer, resolvedPath)) :
    (lineVerb line).bind Transfer.ofVerb = some transfer ∧
      resolvedPath = resolve client.phyRoot client.cwd (lineArg line) := by
  unfold waitsFor at h
  split at h
  case h_1 htransfer _ _ =>
      obtain ⟨-, heq⟩ := Option.ite_none_right_eq_some.mp h
      cases heq
      exact ⟨htransfer, rfl⟩
  case h_2 => cases h

end Effects

section Calls

variable (d : DataCalls) (os : Os) (resolvedPath : Text)

theorem sendLength_of_small {length : ℕ} (h : length ≤ 8192) : sendLength length = length := by
  have hlow : length % 2 ^ 32 = length := Nat.mod_eq_of_lt (by omega)
  rw [sendLength, hlow, if_pos (by omega)]

theorem offered_of_small {bytes : Text} (h : bytes.length ≤ 8192) : d.offered bytes = bytes := by
  rw [DataCalls.offered, sendLength_of_small h, List.take_left]

/-- One call takes exactly its text when it takes as many bytes as that has. -/
theorem take_offered_iff (bytes : Text) (n : ℕ) : (d.offered bytes).take n = bytes ↔
    bytes.length ≤ sendLength bytes.length ∧ min n (d.offered bytes).length = bytes.length := by
  constructor
  · intro h
    have hlength := congrArg List.length h
    rw [List.length_take] at hlength
    have hoffered : (d.offered bytes).length ≤ sendLength bytes.length := List.length_take_le ..
    exact ⟨by omega, hlength⟩
  · rintro ⟨hoffers, hcount⟩
    have hfront : (d.offered bytes).take bytes.length = bytes := by
      rw [DataCalls.offered, List.take_take, Nat.min_eq_left hoffers, List.take_left]
    rw [List.take_eq_take_min, hcount, hfront]

theorem moves_list_iff :
    Moves d os resolvedPath (listTransfer os resolvedPath).1 .list ↔
      Carries d os resolvedPath .list := by
  have haccepted : d.accepted (listTransfer os resolvedPath).1 =
      (d.offered (dirListing os resolvedPath)).take (d.count 0) := by
    have hsent : (listTransfer os resolvedPath).1.filterMap Effect.sent =
        [dirListing os resolvedPath] := rfl
    simp [DataCalls.accepted, hsent, copied]
  rw [Moves, haccepted]
  exact take_offered_iff d _ _

theorem moves_retr_iff {content : Text} (hcontent : os.ifstream resolvedPath = some content) :
    Moves d os resolvedPath (retrTransfer os resolvedPath).1 .retr ↔
      Carries d os resolvedPath .retr := by
  have hsmall : ∀ block ∈ content.toChunks 8192, d.offered block = block := fun block hblock =>
    offered_of_small d (length_of_mem_toChunks (by omega) hblock)
  have haccepted : d.accepted (retrTransfer os resolvedPath).1 =
      copied d.count (content.toChunks 8192) := by
    have hsent : (retrTransfer os resolvedPath).1.filterMap Effect.sent =
        content.toChunks 8192 := by
      simp only [retrTransfer, hcontent]
      rw [List.filterMap_cons_none rfl, List.filterMap_map]
      exact List.filterMap_some
    rw [DataCalls.accepted, hsent, List.map_congr_left hsmall, List.map_id']
  have hwhole := copied_eq_iff (content.toChunks 8192) d.count
  rw [flatten_toChunks] at hwhole
  simp only [Moves, Carries, hcontent, haccepted, Option.some.injEq, exists_eq_left',
    forall_eq', hwhole]

theorem moves_stor_iff (hopened : os.ofstream resolvedPath = true) :
    Moves d os resolvedPath (storTransfer os resolvedPath).1 .stor ↔
      Carries d os resolvedPath .stor := by
  have hstored : d.stored (storTransfer os resolvedPath).1 =
      match d.failsAt with
      | none => (receivedBlocks os.recv).flatten
      | some position => (receivedBlocks os.recv).flatten.take position := by
    have hwritten : (storTransfer os resolvedPath).1.filterMap Effect.written =
        receivedBlocks os.recv := by
      simp only [storTransfer, hopened, if_true]
      rw [List.filterMap_cons_none rfl, List.filterMap_map]
      exact List.filterMap_some
    rw [DataCalls.stored, hwritten]
  simp only [Moves, Carries, hopened, hstored, true_imp_iff]
  refine and_congr_right fun _ => ?_
  cases d.failsAt with
  | none => simp
  | some position => simp

end Calls

/-- Transfer completeness. Whatever the file or the listing and whatever
`send`, `recv` and the file do, a transfer command is answered 226 only if
the transfer was complete, exactly when the calls of every transfer that
gets its data connection and its file take what they are offered. -/
theorem answers_complete_iff (d : DataCalls) (os : Os) (server : Server) (client : Client)
    (line : Text) :
    AnswersComplete d os server client line ↔ TransferCarried d os client line := by
  constructor
  · intro h listener transfer resolvedPath hwaits haccept hsock
    obtain ⟨dataSock, haccept⟩ := Option.ne_none_iff_exists'.mp haccept
    obtain ⟨htransfer, hpath⟩ := waitsFor_transfer hwaits
    have hmoves (hreply : (transfer.run os resolvedPath).2 = transferComplete) :
        Moves d os resolvedPath (transfer.run os resolvedPath).1 transfer := by
      have hanswered := (answered_iff server htransfer).mpr
        ⟨listener, dataSock, resolvedPath, hwaits, haccept, hsock, hreply⟩
      exact (moves_dispatch d hwaits haccept).mp (hpath ▸ h transfer htransfer hanswered)
    cases transfer with
    | list => exact (moves_list_iff d os resolvedPath).mp (hmoves rfl)
    | retr =>
        intro content hcontent
        have hreply : (retrTransfer os resolvedPath).2 = transferComplete := by
          simp only [retrTransfer, hcontent]
          rfl
        exact (moves_retr_iff d os resolvedPath hcontent).mp (hmoves hreply) content hcontent
    | stor =>
        intro hopened
        have hreply : (storTransfer os resolvedPath).2 = transferComplete := by
          simp only [storTransfer, hopened, if_true]
          rfl
        exact (moves_stor_iff d os resolvedPath hopened).mp (hmoves hreply) hopened
  · intro h transfer htransfer hanswered
    obtain ⟨listener, dataSock, resolvedPath, hwaits, haccept, hsock, hreply⟩ :=
      (answered_iff server htransfer).mp hanswered
    obtain ⟨-, rfl⟩ := waitsFor_transfer hwaits
    have hcarries := h listener transfer _ hwaits (by simp [haccept]) hsock
    rw [moves_dispatch d hwaits haccept]
    cases transfer with
    | list => exact (moves_list_iff d os _).mpr hcarries
    | retr =>
        cases hcontent : os.ifstream (resolve client.phyRoot client.cwd (lineArg line)) with
        | none =>
            simp only [Transfer.run, retrTransfer, hcontent] at hreply
            exact absurd hreply (by decide)
        | some content => exact (moves_retr_iff d os _ hcontent).mpr hcarries
    | stor =>
        cases hopened : os.ofstream (resolve client.phyRoot client.cwd (lineArg line)) with
        | false =>
            simp only [Transfer.run, storTransfer, hopened, Bool.false_eq_true, if_false] at hreply
            exact absurd hreply (by decide)
        | true => exact (moves_stor_iff d os _ hopened).mpr hcarries

/-- `send` takes one byte of a file of two, and RETR answers 226. -/
theorem retr_answers_226_short : ¬ ∀ (d : DataCalls) (os : Os) (server : Server) (client : Client)
    (line : Text), AnswersComplete d os server client line := by
  intro h
  let client : Client :=
    { sock := some 4, auth := true, perm := FtpPermission.all, phyRoot := "/tmp/ms",
      dataSock := some 7, pasv := true }
  let os : Os := { grantingOs with ifstream := fun _ => some ['x', 'y'] }
  obtain ⟨content, hcontent, haccepted⟩ := h { taken := fun _ => some 1 } os { tmp := "/tmp/ms" }
    client "RETR f" .retr (by decide) (by decide +kernel)
  obtain rfl : ['x', 'y'] = content := Option.some.inj hcontent
  revert haccepted
  decide +kernel

end MockServices.Ftp
