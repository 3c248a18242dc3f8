import MockServices.Ftp.AccountRegistry
import MockServices.Ftp.ControlStream
import MockServices.Ftp.TransferCompleteness

/-!
# The replies on the control connection

A client reads the lines of the control connection as replies: a code and
a hyphen open a reply of several lines, which the same code and a blank
close. Every command is answered by one final reply, a transfer by 150
before it, so a client that sends ahead never loses count.
-/

namespace MockServices.Ftp

open Foundations

/-! ## Reading replies -/

/-- What a client has read: the code of the reply of several lines it is
in, and the codes of the replies that are complete. -/
structure ReplyReader where
  listing : Option Text := none
  replies : List Text := []
  deriving DecidableEq

def ReplyReader.line (reader : ReplyReader) (msg : Text) : ReplyReader :=
  match reader.listing with
  | some code =>
      if msg.take 4 = code ++ [' '] then ⟨none, reader.replies ++ [code]⟩ else reader
  | none =>
      if msg[3]? = some '-' then { reader with listing := some (msg.take 3) }
      else ⟨none, reader.replies ++ [msg.take 3]⟩

/-- The lines written to the control connection. -/
def controlLines (effects : List Effect) : List Text :=
  effects.filterMap fun effect => match effect with
    | .reply msg => some msg
    | _ => none

/-- What a client reads that has read nothing before. -/
def readReplies (effects : List Effect) : ReplyReader :=
  (controlLines effects).foldl ReplyReader.line {}

/-- Three digits, the first of them not 1. -/
def isFinal (code : Text) : Bool :=
  code.length = 3 && code.all Char.isDigit && code.head? ≠ some '1'

/-- One final reply, or for a transfer 150 and one final reply. -/
inductive Completed (verb : Option Verb) : List Text → Prop
  | final (code : Text) (hcode : isFinal code = true) : Completed verb [code]
  | transferred (transfer : Transfer) (hverb : verb.bind Transfer.ofVerb = some transfer)
      (code : Text) (hcode : isFinal code = true) : Completed verb [txt "150", code]

/-- The effects answer a command: what is read of them is complete. -/
def Answers (verb : Option Verb) (effects : List Effect) : Prop :=
  (readReplies effects).listing = none ∧ Completed verb (readReplies effects).replies

theorem Completed.finals {verb : Option Verb} {codes : List Text} (h : Completed verb codes) :
    (codes.filter isFinal).length = 1 := by
  cases h with
  | final code hcode => rw [List.filter_cons_of_pos hcode, List.filter_nil, List.length_singleton]
  | transferred transfer hverb code hcode =>
      have hmark : ¬ isFinal (txt "150") = true := by decide
      rw [List.filter_cons_of_neg hmark, List.filter_cons_of_pos hcode, List.filter_nil,
        List.length_singleton]

@[simp] theorem controlLines_nil : controlLines [] = [] := rfl

@[simp] theorem controlLines_append (effects more : List Effect) :
    controlLines (effects ++ more) = controlLines effects ++ controlLines more :=
  List.filterMap_append

theorem controlLines_of_notMem {effects : List Effect} (h : ∀ msg, .reply msg ∉ effects) :
    controlLines effects = [] := by
  rw [controlLines, List.filterMap_eq_nil_iff]
  intro effect heffect
  cases effect with
  | reply msg => exact absurd heffect (h msg)
  | _ => rfl

theorem controlLines_ftpSend {client : Client} (hsock : client.sock ≠ none) (msg : Text) :
    controlLines (ftpSend client msg) = [msg] := by
  rw [ftpSend, if_neg hsock]
  rfl

/-- What is read does not depend on the replies read before. -/
theorem foldl_line_replies (msgs : List Text) (reader : ReplyReader) (before : List Text) :
    msgs.foldl ReplyReader.line { reader with replies := before ++ reader.replies } =
      { msgs.foldl ReplyReader.line reader with
        replies := before ++ (msgs.foldl ReplyReader.line reader).replies } := by
  induction msgs generalizing reader with
  | nil => rfl
  | cons msg msgs ih =>
      have hline : ReplyReader.line { reader with replies := before ++ reader.replies } msg =
          { reader.line msg with replies := before ++ (reader.line msg).replies } := by
        obtain ⟨listing, replies⟩ := reader
        unfold ReplyReader.line
        cases listing with
        | none => dsimp only; split <;> simp
        | some code => dsimp only; split <;> simp
      rw [List.foldl_cons, List.foldl_cons, hline, ih]

/-- After a complete answer the client starts afresh. -/
theorem readReplies_append {effects : List Effect} (h : (readReplies effects).listing = none)
    (more : List Effect) : readReplies (effects ++ more) =
      { readReplies more with
        replies := (readReplies effects).replies ++ (readReplies more).replies } := by
  have hread : readReplies effects = ⟨none, (readReplies effects).replies⟩ := by
    rw [← h]
  have hafter := foldl_line_replies (controlLines more) {} (readReplies effects).replies
  rw [List.append_nil] at hafter
  rw [readReplies, controlLines_append, List.foldl_append, ← readReplies, hread]
  exact hafter

/-! ## Every exit of a command -/

/-- The line is a final reply by itself. -/
def isReply (msg : Text) : Bool := isFinal (msg.take 3) && msg[3]? = some ' '

/-- The text after the code and the blank does not matter. -/
theorem isReply_append {msg : Text} (h : 4 ≤ msg.length) (rest : Text) :
    isReply (msg ++ rest) = isReply msg := by
  rw [isReply, List.take_append_of_le_length (by omega), List.getElem?_append_left (by omega),
    isReply]

section Exits

variable {verb : Option Verb} {client : Client}

theorem answers_of_controlLines {effects : List Effect} {msg : Text}
    (h : controlLines effects = [msg]) (hmsg : isReply msg = true) : Answers verb effects := by
  obtain ⟨hfinal, hblank⟩ : isFinal (msg.take 3) = true ∧ msg[3]? = some ' ' := by
    simpa [isReply] using hmsg
  have hread : readReplies effects = ⟨none, [msg.take 3]⟩ := by
    rw [readReplies, h, List.foldl_cons, List.foldl_nil]
    simp [ReplyReader.line, hblank]
  rw [Answers, hread]
  exact ⟨rfl, .final _ hfinal⟩

theorem answers_reply (hsock : client.sock ≠ none) {msg : Text} (hmsg : isReply msg = true) :
    Answers verb (ftpSend client msg) :=
  answers_of_controlLines (controlLines_ftpSend hsock msg) hmsg

/-- Calls and socket operations before the reply are not seen by the client. -/
theorem answers_silent (hsock : client.sock ≠ none) {effects : List Effect}
    (hsilent : controlLines effects = []) {msg : Text} (hmsg : isReply msg = true) :
    Answers verb (effects ++ ftpSend client msg) := by
  apply answers_of_controlLines _ hmsg
  rw [controlLines_append, hsilent, controlLines_ftpSend hsock, List.nil_append]

theorem answers_requireAuth (hsock : client.sock ≠ none) {outcome : Outcome}
    (h : Answers verb outcome.2) : Answers verb (requireAuth client outcome).2 := by
  unfold requireAuth
  split
  · exact h
  · exact answers_reply hsock (by decide)

theorem answers_requirePerm (hsock : client.sock ≠ none) {need : FtpPermission}
    {outcome : Outcome} (h : Answers verb outcome.2) :
    Answers verb (requirePerm client need outcome).2 := by
  unfold requirePerm
  split
  · exact h
  · exact answers_reply hsock (by decide)

theorem answers_withPath (hsock : client.sock ≠ none) {need : FtpPermission} {emptyOk : Bool}
    {invalid arg : Text} {next : Text → Outcome} (hinvalid : isReply invalid = true)
    (h : ∀ path, Answers verb (next path).2) :
    Answers verb (withPath client need emptyOk invalid arg next).2 := by
  apply answers_requireAuth hsock
  apply answers_requirePerm hsock
  split
  · exact answers_reply hsock (by decide)
  · dsimp only
    split
    · exact answers_reply hsock hinvalid
    · exact h _

theorem answers_callOnPath (hsock : client.sock ≠ none) {call : Effect} {done : Bool}
    {success failure : Text} (hcall : controlLines [call] = [])
    (hsuccess : isReply success = true) (hfailure : isReply failure = true) :
    Answers verb (callOnPath client call done success failure).2 := by
  have hmsg : isReply (if done then success else failure) = true := by
    split
    · exact hsuccess
    · exact hfailure
  exact answers_silent hsock hcall hmsg

theorem controlLines_closePasv (client : Client) : controlLines (closePasv client).2 = [] :=
  controlLines_of_notMem (reply_notMem_closePasv client)

theorem answers_pasv (os : Os) (hsock : client.sock ≠ none) :
    Answers verb (pasvCmd os client).2 := by
  apply answers_requireAuth hsock
  have hclosed := controlLines_closePasv client
  have hsock' : (closePasv client).1.sock ≠ none := hsock
  have hrefused : isReply (txt "425 Can't open data connection\r\n") = true := by decide
  cases os.socket with
  | none => exact answers_silent hsock' hclosed hrefused
  | some dataSock =>
      have hopened : controlLines ((closePasv client).2 ++ [.openSocket dataSock]) = [] := by
        rw [controlLines_append, hclosed]
        rfl
      have hgive : controlLines ((closePasv client).2 ++ [.openSocket dataSock] ++
          [.closeSocket dataSock]) = [] := by
        rw [controlLines_append, hopened]
        rfl
      dsimp only
      split
      · exact answers_silent hsock' hgive hrefused
      · split
        · exact answers_silent hsock' hgive hrefused
        · cases os.getsockname with
          | none => exact answers_silent hsock' hgive hrefused
          | some dataPort =>
              apply answers_silent hsock' hopened
              simp only [txt, String.toList_append, List.append_assoc]
              rw [isReply_append (by decide)]
              decide

theorem answers_cwd (hsock : client.sock ≠ none) (arg : Text) :
    Answers verb (cwdCmd client arg).2 := by
  apply answers_requireAuth hsock
  apply answers_requirePerm hsock
  split
  · exact answers_reply hsock (by decide)
  · exact answers_reply hsock (by decide)

theorem answers_user (server : Server) (hsock : client.sock ≠ none) (arg : Text) :
    Answers verb (userCmd server client arg).2.2 := by
  unfold userCmd
  split
  · exact answers_reply hsock (by decide)
  · next user huser =>
      have hnamed : { client with user := user.name }.sock ≠ none := hsock
      dsimp only
      split
      · exact answers_reply hnamed (by decide)
      · exact answers_reply hnamed (by decide)

theorem answers_pass (server : Server) (hsock : client.sock ≠ none) (arg : Text) :
    Answers verb (passCmd server client arg).2.2 := by
  unfold passCmd
  split
  · exact answers_reply hsock (by decide)
  · split
    · exact answers_reply hsock (by decide)
    · split
      · exact answers_reply hsock (by decide)
      · next user huser =>
          split
          · have hmade : controlLines (accountRoot server.tmp user.root).2 = [] := by
              rcases accountRoot_cases server.tmp user.root with h | h <;> rw [h] <;> rfl
            exact answers_silent hsock hmade (by decide)
          · exact answers_reply hsock (by decide)

theorem isReply_run (os : Os) (path : Text) (transfer : Transfer) :
    isReply (transfer.run os path).2 = true := by
  have hcomplete : isReply transferComplete = true := by decide
  have hmissing : isReply (txt "550 File not found\r\n") = true := by decide
  have hrefused : isReply (txt "550 Cannot create file\r\n") = true := by decide
  cases transfer with
  | list => exact hcomplete
  | retr =>
      simp only [Transfer.run, retrTransfer]
      cases os.ifstream path with
      | none => exact hmissing
      | some content => exact hcomplete
  | stor =>
      simp only [Transfer.run, storTransfer]
      split
      · exact hcomplete
      · exact hrefused

/-- The mark 150 is always followed by the reply of the transfer. -/
theorem answers_withData (os : Os) (hsock : client.sock ≠ none) (transfer : Transfer)
    (hverb : verb.bind Transfer.ofVerb = some transfer) (path : Text) :
    Answers verb (withData os client (transfer.run os path)).2 := by
  have hmarked : ∀ {effects : List Effect} {msg : Text}, isReply msg = true →
      controlLines effects = [txt "150 Opening data connection\r\n", msg] →
        Answers verb effects := by
    intro effects msg hmsg hlines
    obtain ⟨hfinal, hblank⟩ : isFinal (msg.take 3) = true ∧ msg[3]? = some ' ' := by
      simpa [isReply] using hmsg
    have hread : readReplies effects = ⟨none, [txt "150", msg.take 3]⟩ := by
      rw [readReplies, hlines, List.foldl_cons, List.foldl_cons, List.foldl_nil]
      have hmark : ReplyReader.line {} (txt "150 Opening data connection\r\n") =
          ⟨none, [txt "150"]⟩ := by decide
      rw [hmark]
      simp [ReplyReader.line, hblank]
    rw [Answers, hread]
    exact ⟨rfl, .transferred transfer hverb _ hfinal⟩
  have hsilent : controlLines (transfer.run os path).1 = [] :=
    controlLines_of_notMem fun msg => reply_notMem_run os path msg transfer
  have hcons : ∀ (socket : RawSocket) (more : List Effect),
      controlLines (.openSocket socket :: more) = controlLines more ∧
        controlLines (.closeSocket socket :: more) = controlLines more :=
    fun _ _ => ⟨rfl, rfl⟩
  have hrefused : isReply (txt "425 Can't open data connection\r\n") = true := by decide
  by_cases hlistening : client.pasv = true ∧ client.dataSock ≠ none
  · obtain ⟨listener, hlistener⟩ := Option.ne_none_iff_exists'.mp hlistening.2
    rw [withData_listening os _ hlistening.1 hlistener]
    cases os.accept with
    | none =>
        apply hmarked hrefused
        simp [controlLines_ftpSend hsock, controlLines_closePasv]
    | some dataSock =>
        apply hmarked (isReply_run os path transfer)
        simp [controlLines_ftpSend hsock, controlLines_closePasv, hsilent, hcons]
  · rw [withData_idle os _ hlistening]
    apply hmarked hrefused
    rw [controlLines_append, controlLines_ftpSend hsock, controlLines_ftpSend hsock]
    rfl

/-- The listing of FEAT is one reply of three lines. -/
theorem answers_feat (hsock : client.sock ≠ none) : Answers verb (featCmd client).2 := by
  have hread : readReplies (featCmd client).2 = ⟨none, [txt "211"]⟩ := by
    unfold featCmd readReplies
    simp only [controlLines_append, controlLines_ftpSend hsock]
    decide
  rw [Answers, hread]
  exact ⟨rfl, .final _ (by decide)⟩

/-- The goodbye is sent before the socket is closed. -/
theorem answers_quit (hsock : client.sock ≠ none) :
    Answers verb (ftpSend client "221 Goodbye\r\n" ++ (closeClient client).2) := by
  have hclosed : controlLines (closeClient client).2 = [] := by
    unfold closeClient
    rw [controlLines_append, controlLines_closePasv]
    cases client.sock <;> rfl
  have hgoodbye : controlLines (ftpSend client "221 Goodbye\r\n" ++ (closeClient client).2) =
      [txt "221 Goodbye\r\n"] := by
    rw [controlLines_append, controlLines_ftpSend hsock, hclosed, List.append_nil]
  exact answers_of_controlLines hgoodbye (by decide)

end Exits

/-- Every command line of a client with an open control socket is answered. -/
theorem answers_dispatch (os : Os) (server : Server) {client : Client} (line : Text)
    (hsock : client.sock ≠ none) :
    Answers (lineVerb line) (dispatch os server client line).2.2 := by
  rw [dispatch_eq]
  cases hverb : lineVerb line with
  | none => exact answers_reply hsock (by decide)
  | some verb =>
      have hcall : ∀ call : Effect, (∀ msg, call ≠ .reply msg) → controlLines [call] = [] := by
        intro call hcall
        cases call with
        | reply msg => exact absurd rfl (hcall msg)
        | _ => rfl
      cases verb with
      | user => exact answers_user server hsock _
      | pass => exact answers_pass server hsock _
      | syst | type => exact answers_requireAuth hsock (answers_reply hsock (by decide))
      | pwd =>
          apply answers_requireAuth hsock
          apply answers_reply hsock
          rw [List.append_assoc, isReply_append (by decide)]
          decide
      | pasv => exact answers_pasv os hsock
      | list =>
          exact answers_withPath hsock (by decide) fun path =>
            answers_withData os hsock .list rfl path
      | retr =>
          exact answers_withPath hsock (by decide) fun path =>
            answers_withData os hsock .retr rfl path
      | stor =>
          exact answers_withPath hsock (by decide) fun path =>
            answers_withData os hsock .stor rfl path
      | dele =>
          exact answers_withPath hsock (by decide) fun path =>
            answers_callOnPath hsock rfl (by decide) (by decide)
      | rmd =>
          exact answers_withPath hsock (by decide) fun path =>
            answers_callOnPath hsock rfl (by decide) (by decide)
      | mkd =>
          apply answers_withPath hsock (by decide)
          intro path
          apply answers_callOnPath hsock rfl _ (by decide)
          rw [List.append_assoc, isReply_append (by decide)]
          decide
      | cwd | cdup => exact answers_cwd hsock _
      | quit => exact answers_quit hsock
      | noop => exact answers_reply hsock (by decide)
      | feat => exact answers_feat hsock

/-! ## Runs -/

/-- What happens to a connection: a chunk of the stream arrives, or the
test changes the accounts. -/
inductive ControlInput where
  | chunk (text : Text)
  | call (call : Registration)

section Runs

variable (answers : ℕ → Os)

def Control.turn (c : Control) : ControlInput → Option Control
  | .chunk text => c.step answers text
  | .call call =>
      some { c with server := { c.server with users := register c.server.users call } }

end Runs

namespace Control

variable {answers : ℕ → Os} {c : Control}

/-- The socket is open, and what was read is complete, one final reply for
every line dispatched. -/
structure Conversed (c : Control) : Prop where
  isOpen : c.client.sock ≠ none
  complete : (readReplies c.effects).listing = none
  counted : ((readReplies c.effects).replies.filter isFinal).length = c.lines.length

theorem Conversed.dispatchLine (h : c.Conversed) {line : Text} (hquit : ¬ IsQuit line) :
    (c.dispatchLine answers line).Conversed := by
  by_cases hempty : line = []
  · rw [Control.dispatchLine, if_pos hempty]
    exact h
  · let os := answers c.log.length
    obtain ⟨hlisting, hcompleted⟩ := answers_dispatch os c.server line h.isOpen
    have hdispatched : c.dispatchLine answers line =
        { c with
          server := (dispatch os c.server c.client line).1
          client := (dispatch os c.server c.client line).2.1
          log := c.log ++ [⟨line, (dispatch os c.server c.client line).2.2⟩] } := by
      rw [Control.dispatchLine, if_neg hempty]
    have heffects : (c.dispatchLine answers line).effects =
        c.effects ++ (dispatch os c.server c.client line).2.2 := by
      simp [hdispatched, Control.effects]
    have hread := readReplies_append h.complete (dispatch os c.server c.client line).2.2
    refine ⟨?_, ?_, ?_⟩
    · rw [hdispatched]
      change (dispatch os c.server c.client line).2.1.sock ≠ none
      rw [sock_of_not_quit (dispatched os c.server c.client line) hquit]
      exact h.isOpen
    · rw [heffects, hread]
      exact hlisting
    · rw [heffects, hread, lines_dispatchLine hempty, List.filter_append, List.length_append,
        List.length_append, h.counted, hcompleted.finals, List.length_singleton]

theorem Conversed.foldl {ls : List Text} (h : c.Conversed) (hquit : ∀ line ∈ ls, ¬ IsQuit line) :
    (ls.foldl (Control.dispatchLine answers) c).Conversed := by
  induction ls generalizing c with
  | nil => exact h
  | cons line ls ih =>
      apply ih (h.dispatchLine (hquit line List.mem_cons_self))
      exact fun l hl => hquit l (List.mem_cons_of_mem _ hl)

theorem lines_turn {t : Control} {input : ControlInput} (h : c.turn answers input = some t) :
    ∃ more, t.lines = c.lines ++ more := by
  cases input with
  | chunk text => exact ⟨_, lines_step h⟩
  | call call =>
      obtain rfl := Option.some.inj h
      exact ⟨[], (List.append_nil _).symm⟩

theorem Conversed.turn {t : Control} {input : ControlInput}
    (h : c.Conversed) (hturn : c.turn answers input = some t)
    (hquit : ∀ line ∈ t.lines, ¬ IsQuit line) : t.Conversed := by
  cases input with
  | chunk text =>
      rw [lines_step hturn] at hquit
      obtain ⟨-, rfl⟩ := step_eq_some hturn
      have hfold : ((commandsOf (c.partialLine ++ cStr text)).foldl
          (Control.dispatchLine answers) c).Conversed :=
        h.foldl fun line hline => hquit line (List.mem_append_right _ hline)
      exact ⟨hfold.isOpen, hfold.complete, hfold.counted⟩
  | call call =>
      obtain rfl := Option.some.inj hturn
      exact ⟨h.isOpen, h.complete, h.counted⟩

theorem Conversed.run {t : Control} {inputs : List ControlInput} (h : c.Conversed)
    (hrun : run (Control.turn answers) c inputs = some t)
    (hquit : ∀ line ∈ t.lines, ¬ IsQuit line) : t.Conversed := by
  induction inputs using List.reverseRecOn generalizing t with
  | nil =>
      obtain rfl := Option.some.inj hrun
      exact h
  | append_singleton inputs input ih =>
      obtain ⟨u, hu, hlast⟩ := run_append_some_iff.mp hrun
      obtain ⟨v, hturn, hv⟩ := run_cons_some_iff.mp hlast
      obtain rfl := Option.some.inj hv
      obtain ⟨more, hmore⟩ := lines_turn hturn
      have hbefore : ∀ line ∈ u.lines, ¬ IsQuit line := by
        intro line hline
        apply hquit
        rw [hmore]
        exact List.mem_append_left _ hline
      exact (ih hu hbefore).turn hturn hquit

end Control

/-- One completion reply for each command. -/
theorem one_completion_per_command :
    (∀ (os : Os) (server : Server) (client : Client) (line : Text), client.sock ≠ none →
      Answers (lineVerb line) (dispatch os server client line).2.2) ∧
    ∀ (answers : ℕ → Os) (server : Server) (client : Client) (inputs : List ControlInput)
      (c : Control), client.sock ≠ none →
        run (Control.turn answers) (Control.start server client) inputs = some c →
          (∀ line ∈ c.lines, ¬ IsQuit line) →
            ((readReplies c.effects).replies.filter isFinal).length = c.lines.length := by
  refine ⟨fun os server client line hsock => answers_dispatch os server line hsock, ?_⟩
  intro answers server client inputs c hsock hrun hquit
  have hstart : (Control.start server client).Conversed := ⟨hsock, rfl, rfl⟩
  exact (hstart.run hrun hquit).counted

/-- A log-in, FEAT and LIST without a listener, sent ahead in two chunks
between which the accounts are changed. -/
theorem one_completion_per_command_ahead :
    Answers (some .feat) (dispatch grantingOs { tmp := "/tmp/ms" } { sock := some 4 } "FEAT").2.2 ∧
      ∃ c, run (Control.turn fun _ => grantingOs)
          (Control.start { tmp := "/tmp/ms" } { sock := some 4 })
          [.call (.addAnonymousUser "/" FtpPermission.all), .chunk "USER anonymous\r\nFE",
            .call .clearUsers, .chunk "AT\r\nLIST\r\n"] = some c ∧
        c.lines = [txt "USER anonymous", txt "FEAT", txt "LIST"] ∧
        ((readReplies c.effects).replies.filter isFinal).length = 3 := by
  refine ⟨one_completion_per_command.1 grantingOs _ _ "FEAT" (by decide), ?_⟩
  have hrun : ((run (Control.turn fun _ => grantingOs)
      (Control.start { tmp := "/tmp/ms" } { sock := some 4 })
      [.call (.addAnonymousUser "/" FtpPermission.all), .chunk "USER anonymous\r\nFE",
        .call .clearUsers, .chunk "AT\r\nLIST\r\n"]).any fun c =>
      c.lines = ([txt "USER anonymous", txt "FEAT", txt "LIST"] : List Text)) = true := by
    decide +kernel
  obtain ⟨c, hc, hlines⟩ := (Option.any_eq_true _ _).mp hrun
  have hlines := of_decide_eq_true hlines
  have hcounted := one_completion_per_command.2 _ _ { sock := some 4 } _ c (by decide) hc
    (by rw [hlines]; decide)
  rw [hlines] at hcounted
  exact ⟨c, hc, hlines, hcounted⟩

end MockServices.Ftp
