import MockServices.Sftp.Teardown

/-!
# One reply for each request

Counted along each handler, with reply functions that succeed: whatever
the operating system, the heap and the handle table answer, a handler that
comes to its end has called one reply function, once. It does not come to
its end if the message's handle belongs to an object that is not there any
more or is of the other kind.
-/

namespace MockServices.Sftp

open Foundations Foundations.Program

variable {σ : Type}

def isReply : Call → Bool
  | .os (.reply _) => true
  | _ => false

/-- A reply function succeeds. -/
def Delivered : (c : Call) → c.Answer → Prop
  | .os (.reply _), sent => sent = true
  | _, _ => True

/-- The reply functions of the environment succeed. -/
def Environment.Delivers (env : Environment σ) : Prop :=
  ∀ e reply, (env.answer e (.reply reply)).1 = true

/-- The memory for the attributes of a reply is there. -/
def Environment.Allocates (env : Environment σ) : Prop := ∀ e, (env.answer e .calloc).1 = true

/-- The message is served without undefined behaviour, with one reply. -/
structure AnswersOnce (env : Environment σ) (ctx : SftpContext) (s : Session σ)
    (msg : SftpClientMessage) : Prop where
  finishes : (s.serve env ctx msg).error? = none
  once : (replies (s.serve env ctx msg).events).length = 1
  unknown : msg.type = .other →
    replies (s.serve env ctx msg).events = [.status .opUnsupported none]

/-! ## Along the handlers -/

section Handlers

variable {ctx : SftpContext} {msg : SftpClientMessage} {α β : Type}

abbrev Replies (n : ℕ) (p : Handler α) : Prop := p.Counts Delivered isReply n

theorem silent_call {c : Call} (h : isReply c = false) : Replies 0 (call c) := by
  have hcounts : Replies ((isReply c).toNat + 0) (call c) :=
    counts_call fun answer _ => counts_done answer
  rwa [h] at hcounts

theorem replies_after_silent {n : ℕ} {p : Handler α} {f : α → Handler β} (hp : Replies 0 p)
    (hf : ∀ a, Replies n (f a)) : Replies n (p >>= f) := by
  rw [← Nat.zero_add n]
  exact counts_bind hp hf

theorem replies_then_silent {p : Handler α} {f : α → Handler β} (hp : Replies 1 p)
    (hf : ∀ a, Replies 0 (f a)) : Replies 1 (p >>= f) :=
  counts_bind hp hf

theorem replies_after_call {c : Call} {f : c.Answer → Handler β} (h : isReply c = false)
    (hf : ∀ answer, Replies 1 (f answer)) : Replies 1 (call c >>= f) :=
  replies_after_silent (silent_call h) hf

theorem silent_log (operation path result : Text) :
    Replies 0 (ctx.logActivity operation path result) :=
  silent_call rfl

theorem one_replyStatus (code : StatusCode) (message : Option Text) :
    Replies 1 (replyStatus code message) :=
  counts_call (n := 0) fun _ _ => counts_done ()

/-- The second reply is for one that was not sent. -/
theorem one_replyOrFail (r : Reply) : Replies 1 (replyOrFail r) := by
  apply counts_call (n := 0)
  intro sent hsent
  obtain rfl : sent = true := hsent
  exact counts_done ()

theorem one_refuse (operation path result : Text) (code : StatusCode) :
    Replies 1 (refuse ctx operation path result code) :=
  replies_after_silent (silent_log _ _ _) fun _ => one_replyStatus _ _

theorem one_reply_logged (code : StatusCode) (operation path result : Text) :
    Replies 1 (replyStatus code >>= fun _ => ctx.logActivity operation path result) :=
  replies_then_silent (one_replyStatus _ _) fun _ => silent_log _ _ _

theorem one_requireWrite {operation path : Text} {next : Handler Unit} (h : Replies 1 next) :
    Replies 1 (requireWrite ctx operation path next) := by
  unfold requireWrite
  split
  · exact h
  · exact one_refuse _ _ _ _

theorem one_withResolved {operation path missing : Text} {mustExist : Bool} {code : StatusCode}
    {next : Text → Handler Unit} (h : ∀ full, Replies 1 (next full)) :
    Replies 1 (withResolved ctx operation path mustExist missing code next) := by
  apply replies_after_silent
  · exact replies_after_silent (silent_call rfl) fun realpath => counts_done _
  · intro full
    split
    · exact one_refuse _ _ _ _
    · exact h full

theorem one_withHandle {next : ObjectId → Handler Unit} (h : ∀ info, Replies 1 (next info)) :
    Replies 1 (withHandle msg next) := by
  apply replies_after_call rfl
  intro info
  cases info with
  | none => exact one_replyStatus _ _
  | some info => exact h info

theorem silent_makeAttr (name : Text) (size : BitVec 64) (perm : BitVec 32) (mtime atime : ℤ) :
    Replies 0 (makeAttr name size perm mtime atime) := by
  apply replies_after_silent (silent_call rfl)
  intro allocated
  cases allocated <;> exact counts_done _

theorem silent_statToAttr (full display : Text) : Replies 0 (statToAttr full display) := by
  apply replies_after_silent (silent_call rfl)
  intro answer
  cases answer with
  | none => exact counts_done _
  | some st => exact silent_makeAttr _ _ _ _ _

theorem one_callOnPath {operation path : Text} {p : Handler Bool} (h : Replies 0 p) :
    Replies 1 (callOnPath ctx operation path p) := by
  apply replies_after_silent h
  intro done
  cases done with
  | true => exact one_reply_logged _ _ _ _
  | false => exact one_refuse _ _ _ _

theorem silent_closeData (data : HandleData) : Replies 0 (closeData data) := by
  rcases data with ⟨fp, path⟩ | ⟨path, dir⟩
  · cases fp with
    | none => exact counts_done ()
    | some fp => exact silent_call rfl
  · cases dir with
    | none => exact counts_done ()
    | some dir => exact silent_call rfl

/-- The two exits of OPEN and OPENDIR after the allocation of the handle. -/
theorem one_giveHandle (operation path : Text) (info : ObjectId) (data : HandleData) :
    Replies 1 (giveHandle ctx operation path info data) := by
  apply replies_after_call rfl
  intro slot
  cases slot with
  | none =>
      apply replies_after_silent (silent_closeData data)
      intro _
      exact replies_after_call rfl fun _ => one_replyStatus _ _
  | some slot =>
      apply counts_call (n := 0)
      intro sent hsent
      obtain rfl : sent = true := hsent
      exact silent_log _ _ _

theorem silent_releaseData (info : ObjectId) : Replies 0 (releaseData info) := by
  apply replies_after_silent (silent_call rfl)
  intro kind
  cases kind with
  | file =>
      apply replies_after_silent (silent_call rfl)
      intro fd
      exact replies_after_silent (silent_closeData _) fun _ => silent_call rfl
  | directory =>
      apply replies_after_silent (silent_call rfl)
      intro dd
      exact replies_after_silent (silent_closeData _) fun _ => silent_call rfl

theorem one_sftpDoOpen : Replies 1 (sftpDoOpen ctx msg) := by
  unfold sftpDoOpen
  split
  · exact one_refuse _ _ _ _
  · apply one_withResolved
    intro full
    apply replies_after_call rfl
    intro id
    cases id with
    | none => exact one_refuse _ _ _ _
    | some id => exact replies_after_call rfl fun info => one_giveHandle _ _ _ _

theorem one_sftpDoClose : Replies 1 (sftpDoClose ctx msg) := by
  apply one_withHandle
  intro info
  apply replies_after_silent (silent_releaseData info)
  intro _
  exact replies_after_call rfl fun _ => one_reply_logged _ _ _ _

theorem one_withFile {next : FileData → Handler Unit} (h : ∀ fd, Replies 1 (next fd)) :
    Replies 1 (withFile msg next) :=
  one_withHandle fun _ => replies_after_call rfl h

theorem one_seekFirst {fd : FileData} {next : FilePtr → Handler Unit}
    (h : ∀ fp, Replies 1 (next fp)) : Replies 1 (seekFirst ctx msg fd next) := by
  unfold seekFirst
  cases fd.fp with
  | none => exact one_replyStatus _ _
  | some fp =>
      apply replies_after_call rfl
      intro moved
      cases moved with
      | true => exact h fp
      | false => exact one_replyStatus _ _

theorem one_readFrom (fp : FilePtr) : Replies 1 (readFrom msg fp) := by
  apply replies_after_call rfl
  intro buffer
  split
  · exact one_replyStatus _ _
  · exact one_replyOrFail _

theorem one_writeTo (path : Text) (fp : FilePtr) : Replies 1 (writeTo ctx msg path fp) := by
  apply replies_after_call rfl
  intro written
  split
  · exact one_replyStatus _ _
  · exact replies_after_call rfl fun _ => one_reply_logged _ _ _ _

theorem one_sftpDoWrite : Replies 1 (sftpDoWrite ctx msg) := by
  unfold sftpDoWrite
  split
  · exact one_withFile fun fd => one_seekFirst (one_writeTo fd.path)
  · exact one_replyStatus _ _

theorem one_sftpDoOpendir : Replies 1 (sftpDoOpendir ctx msg) := by
  unfold sftpDoOpendir
  split
  · apply one_withResolved
    intro full
    apply replies_after_call rfl
    intro info
    apply replies_after_call rfl
    intro dir
    cases dir with
    | none => exact replies_after_call rfl fun _ => one_refuse _ _ _ _
    | some dir => exact replies_after_call rfl fun _ => one_giveHandle _ _ _ _
  · exact one_refuse _ _ _ _

theorem one_replyEntry (dd : DirData) : Replies 1 (replyEntry dd) := by
  apply replies_after_call rfl
  intro entries
  apply replies_after_call rfl
  intro _
  cases (readEntry entries).1 with
  | none => exact one_replyStatus _ _
  | some entry =>
      apply replies_after_silent (silent_statToAttr _ _)
      intro attr
      cases attr with
      | none => exact replies_after_silent (silent_makeAttr _ _ _ _ _) fun _ => one_replyOrFail _
      | some attr => exact one_replyOrFail _

theorem one_replyFstat (fd : FileData) : Replies 1 (replyFstat fd) := by
  apply replies_after_silent (silent_statToAttr _ _)
  intro attr
  cases attr with
  | none => exact one_replyStatus _ _
  | some attr => exact one_replyOrFail _

theorem one_sftpDoStat : Replies 1 (sftpDoStat ctx msg) := by
  apply one_withResolved
  intro full
  apply replies_after_silent (silent_statToAttr _ _)
  intro attr
  cases attr with
  | none => exact one_replyStatus _ _
  | some attr => exact one_replyOrFail _

theorem one_sftpDoRename : Replies 1 (sftpDoRename ctx msg) := by
  apply one_requireWrite
  apply one_withResolved
  intro source
  cases msg.submessage <|> msg.strData with
  | none => exact one_replyStatus _ _
  | some dstPath =>
      apply one_withResolved
      intro target
      apply replies_after_call rfl
      intro renamed
      cases renamed with
      | true => exact one_reply_logged _ _ _ _
      | false => exact one_refuse _ _ _ _

theorem silent_realpathFull (path : Text) : Replies 0 (realpathFull ctx path) := by
  unfold realpathFull
  split
  · exact counts_done _
  · apply replies_after_silent
    · exact replies_after_silent (silent_call rfl) fun _ => counts_done _
    · exact fun _ => counts_done _

theorem one_sftpDoRealpath : Replies 1 (sftpDoRealpath ctx msg) := by
  unfold sftpDoRealpath
  split
  · split
    · exact one_replyStatus _ _
    · apply replies_after_silent (silent_realpathFull _)
      intro full
      apply replies_after_silent (silent_makeAttr _ _ _ _ _)
      intro attr
      cases attr with
      | none => exact one_replyStatus _ _
      | some attr => exact one_replyOrFail _
  · exact one_refuse _ _ _ _

/-- Every handler calls one reply function. -/
theorem one_processSftp : Replies 1 (processSftp ctx msg) := by
  unfold processSftp
  cases msg.type with
  | «open» => exact one_sftpDoOpen
  | close => exact one_sftpDoClose
  | read => exact one_withFile fun fd => one_seekFirst one_readFrom
  | write => exact one_sftpDoWrite
  | opendir => exact one_sftpDoOpendir
  | readdir => exact one_withHandle fun _ => replies_after_call rfl one_replyEntry
  | stat | lstat => exact one_sftpDoStat
  | fstat => exact one_withFile one_replyFstat
  | setstat => exact one_requireWrite (one_withResolved fun _ => one_reply_logged _ _ _ _)
  | fsetstat =>
      apply one_withHandle
      intro info
      split <;> exact one_replyStatus _ _
  | mkdir | rmdir | remove =>
      exact one_requireWrite (one_withResolved fun _ => one_callOnPath (silent_call rfl))
  | rename => exact one_sftpDoRename
  | realpath => exact one_sftpDoRealpath
  | other => exact one_replyStatus _ _

end Handlers

/-! ## Along a session -/

theorem length_replies (events : List (Event Call.Answer)) :
    (replies events).length = events.countP fun e => isReply e.1 := by
  induction events with
  | nil => rfl
  | cons e events ih =>
      obtain ⟨c, answer⟩ := e
      rw [List.countP_cons, ← ih]
      cases c with
      | os c =>
          cases c with
          | reply reply => simp [replies, isReply]
          | _ => simp [replies, isReply]
      | _ => simp [replies, isReply]

theorem delivered_perform {env : Environment σ} (hdelivers : env.Delivers) (w : World σ) (c : Call)
    (answer : c.Answer) (w' : World σ) (h : perform env w c = .ok (answer, w')) :
    Delivered c answer := by
  cases c with
  | os c =>
      cases c with
      | reply reply =>
          cases h
          exact hdelivers _ _
      | _ => trivial
  | _ => trivial

/-- Every message gets one reply as long as it finds its object. -/
theorem answers_once_iff {env : Environment σ} (hdelivers : env.Delivers) (ctx : SftpContext)
    (s : Session σ) (msg : SftpClientMessage) :
    AnswersOnce env ctx s msg ↔ FindsItsObject ctx s.world msg := by
  constructor
  · intro h
    exact (serve_error?_eq_none_iff env ctx s msg).mp h.finishes
  · intro h
    have hend := (serve_error?_eq_none_iff env ctx s msg).mpr h
    refine ⟨hend, ?_, ?_⟩
    · rw [length_replies]
      exact one_processSftp.events (delivered_perform hdelivers) hend
    · intro hother
      unfold Session.serve processSftp
      rw [hother]
      rfl

/-! ## A READ that gets no answer -/

theorem delivers_granting (realpath : Realpath) (content : Bytes) (listing : List Text) :
    (granting realpath content listing).Delivers := fun _ _ => rfl

theorem allocates_granting (realpath : Realpath) (content : Bytes) (listing : List Text) :
    (granting realpath content listing).Allocates := fun _ => rfl

/-- The witness of the condition: an OPEN in a new session. -/
theorem answers_once_open :
    (granting (fun _ => some daveRoot) [] []).Delivers ∧
      AnswersOnce (granting (fun _ => some daveRoot) [] []) daveContext (Session.start ())
        { type := .open, filename := "notes", flags := OpenFlags.read } :=
  ⟨delivers_granting _ _ _, (answers_once_iff (delivers_granting _ _ _) daveContext
    (Session.start ()) { type := .open, filename := "notes", flags := OpenFlags.read }).mpr
      (findsItsObject_of_givesHandle _ rfl)⟩

/-- OPENDIR gives the handle of a directory, and READ takes what is behind
it for a file. -/
theorem read_of_directory_unanswered :
    ¬ ∀ (σ : Type) (env : Environment σ), env.Delivers → ∀ (ctx : SftpContext) (s : Session σ)
      (msg : SftpClientMessage), AnswersOnce env ctx s msg := by
  intro h
  have hread : ((step (granting (fun _ => some daveRoot) [] []) daveContext (Session.start ())
      { type := .opendir, filename := "/" }).map fun t =>
        (t.serve (granting (fun _ => some daveRoot) [] []) daveContext
          { type := .read, handle := some 0, len := 1 }).error?) = some (some ⟨false, true⟩) := by
    decide +kernel
  obtain ⟨t, -, herror⟩ := Option.map_eq_some_iff.mp hread
  have hanswers := h Unit (granting (fun _ => some daveRoot) [] []) (delivers_granting _ _ _)
    daveContext t { type := .read, handle := some 0, len := 1 }
  rw [hanswers.finishes] at herror
  cases herror

end MockServices.Sftp
