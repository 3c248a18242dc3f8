import MockServices.Sftp.Containment
import MockServices.Sftp.Turns

/-!
# The activity log and the replies

Seven messages are to leave one entry in the activity log each, written
before the client is answered. What they refuse is logged first. A success
is answered first and logged afterwards, so that a thread that has seen
the answer may look for the entry in vain, and two failures are not logged
at all.
-/

namespace MockServices.Sftp

open Foundations Foundations.Program

variable {σ : Type}

/-- An entry of the activity log. -/
structure SftpActivity where
  user : Text
  operation : Text
  path : Text
  result : Text
  deriving DecidableEq

/-- What others can see of serving a message. -/
inductive Mark where
  | logged (entry : SftpActivity)
  | replied (reply : Reply) (sent : Bool)

def markOf : Event Call.Answer → Option Mark
  | ⟨.logActivity user operation path result, _⟩ => some (.logged ⟨user, operation, path, result⟩)
  | ⟨.os (.reply reply), sent⟩ => some (.replied reply sent)
  | _ => none

def marks (events : List (Event Call.Answer)) : List Mark := events.filterMap markOf

/-- The entries that were appended to the log. -/
def entries (ms : List Mark) : List SftpActivity :=
  ms.filterMap fun
    | .logged entry => some entry
    | .replied _ _ => none

/-- The replies that reached the client. -/
def received (ms : List Mark) : List Reply :=
  ms.filterMap fun
    | .replied reply true => some reply
    | _ => none

/-- The messages that are logged, with the name in the log. -/
def MessageType.operation : MessageType → Option Text
  | .open => some "OPEN"
  | .opendir => some "OPENDIR"
  | .mkdir => some "MKDIR"
  | .rmdir => some "RMDIR"
  | .remove => some "REMOVE"
  | .rename => some "RENAME"
  | .setstat => some "SETSTAT"
  | _ => none

/-- The reply that tells the client of a success. -/
def MessageType.success (type : MessageType) (reply : Reply) : Bool :=
  match type, reply with
  | .open, .handle _ | .opendir, .handle _ => true
  | .open, _ | .opendir, _ => false
  | _, reply => reply = .status .ok none

/-- The steps of one thread among those of several, in the order in which
they happen. -/
def stepsOf {β : Type} (id : ℕ) (trace : List (ℕ × β)) : List β :=
  trace.filterMap fun p => if p.1 = id then some p.2 else none

/-- One entry for the message, which tells whether it succeeded, and
which is in the log whenever a reply has reached the client. -/
structure Logged (ctx : SftpContext) (msg : SftpClientMessage) (events : List (Event Call.Answer)) :
    Prop where
  once : ∃ entry, entries (marks events) = [entry] ∧ entry.user = ctx.username ∧
    msg.type.operation = some entry.operation
  accurate : ∀ entry ∈ entries (marks events),
    entry.result = txt "OK" ↔ ∃ reply ∈ received (marks events), msg.type.success reply = true
  before : ∀ id trace now, stepsOf id trace = events → now <+: trace →
    received (marks (stepsOf id now)) ≠ [] →
      entries (marks (stepsOf id now)) = entries (marks events)

/-- Whether the message is not refused: the permission is there, the paths
resolve, and the call that is made on them succeeds. A RENAME without a
destination is not refused either, it is answered without being logged. -/
def Session.proceeds (env : Environment σ) (ctx : SftpContext) (s : Session σ)
    (msg : SftpClientMessage) : Bool :=
  let resolved := resolvedIn env ctx s.world.env msg.filename
  match msg.type with
  | .open => !openDenied ctx.perm msg.flags &&
      (resolved (msg.flags &&& OpenFlags.creat == 0)).any fun (e, full) =>
        (env.answer e (.fopen full (sftpFlagsToMode msg.flags).1)).1.isSome
  | .opendir => canRead ctx.perm && (resolved true).any fun (e, full) =>
      (env.answer e (.opendir full)).1.isSome
  | .setstat => canWrite ctx.perm && (resolved true).isSome
  | .mkdir => canWrite ctx.perm && (resolved false).any fun (e, full) =>
      (env.answer e (.mkdir full)).1
  | .rmdir => canWrite ctx.perm && (resolved true).any fun (e, full) =>
      (env.answer e (.rmdir full)).1
  | .remove => canWrite ctx.perm && (resolved true).any fun (e, full) =>
      (env.answer e (.unlink full)).1
  | .rename => canWrite ctx.perm && (resolved true).any fun (e, source) =>
      match msg.submessage <|> msg.strData with
      | none => true
      | some dstPath => (resolvedIn env ctx e dstPath false).any fun (e, target) =>
          (env.answer e (.rename source target)).1
  | _ => false

/-! ## Marks -/

@[simp] theorem marks_nil : marks [] = [] := rfl

@[simp] theorem marks_cons (e : Event Call.Answer) (events : List (Event Call.Answer)) :
    marks (e :: events) = (markOf e).toList ++ marks events := by
  cases h : markOf e <;> simp [marks, h]

@[simp] theorem marks_append (xs ys : List (Event Call.Answer)) :
    marks (xs ++ ys) = marks xs ++ marks ys := List.filterMap_append

theorem stepsOf_mono {β : Type} {id : ℕ} {now trace : List (ℕ × β)} (h : now <+: trace) :
    stepsOf id now <+: stepsOf id trace := h.filterMap _

/-- A thread alone. -/
theorem stepsOf_alone {β : Type} (id : ℕ) (steps : List β) :
    stepsOf id (steps.map (Prod.mk id)) = steps := by
  simp [stepsOf, List.filterMap_map]

/-- The ways in which a logged message is answered. -/
inductive Answered (ctx : SftpContext) (msg : SftpClientMessage) (proceeds : Bool) :
    List Mark → Prop where
  | refused (h : proceeds = false) (operation path result : Text) (code : StatusCode) (sent : Bool)
      (hoperation : msg.type.operation = some operation) (hresult : result ≠ txt "OK")
      (hcode : code ≠ .ok) :
      Answered ctx msg proceeds
        [.logged ⟨ctx.username, operation, path, result⟩, .replied (.status code none) sent]
  | late (h : proceeds = true) (reply : Reply) (sent : Bool) (entry : SftpActivity)
      (hresult : entry.result = txt "OK") :
      Answered ctx msg proceeds [.replied reply sent, .logged entry]
  | unlogged (h : proceeds = true) (reply : Reply) (sent : Bool) :
      Answered ctx msg proceeds [.replied reply sent]

section Answered

variable {ctx : SftpContext} {msg : SftpClientMessage} {proceeds : Bool}
  {events : List (Event Call.Answer)}

theorem success_status {type : MessageType} {code : StatusCode} (hcode : code ≠ .ok) :
    type.success (.status code none) = false := by
  cases type <;> simp [MessageType.success, hcode]

/-- What is logged before the reply is in the log when the reply arrives. -/
theorem entries_of_received {entry : SftpActivity} {reply : Reply} {sent : Bool} {now : List Mark}
    (h : now <+: [.logged entry, .replied reply sent]) (hreceived : received now ≠ []) :
    entries now = [entry] := by
  obtain ⟨rest, hrest⟩ := h
  match now with
  | [] => exact absurd rfl hreceived
  | [mark] =>
      cases hrest
      exact absurd rfl hreceived
  | [mark, mark'] =>
      cases hrest
      rfl

/-- A reply that comes first can be seen before the entry is there. -/
theorem exists_prefix_marks {mark : Mark} {ms : List Mark} (h : marks events = mark :: ms) :
    ∃ now, now <+: events ∧ marks now = [mark] := by
  obtain ⟨front, e, rest, rfl, hfront, he, -⟩ := List.filterMap_eq_cons_iff.mp h
  refine ⟨front ++ [e], ⟨rest, by simp⟩, ?_⟩
  have hnone : marks front = [] := List.filterMap_eq_nil_iff.mpr hfront
  simp [hnone, he]

theorem Answered.logged_iff (h : Answered ctx msg proceeds (marks events)) :
    Logged ctx msg events ↔ proceeds = false := by
  generalize hmarks : marks events = ms at h
  cases h with
  | refused h operation path result code sent hoperation hresult hcode =>
      refine iff_of_true ⟨?_, ?_, ?_⟩ h
      · exact ⟨_, by rw [hmarks]; rfl, rfl, hoperation⟩
      · intro entry hentry
        rw [hmarks] at hentry ⊢
        obtain rfl := List.mem_singleton.mp hentry
        apply iff_of_false hresult
        rintro ⟨reply, hreply, hsuccess⟩
        cases sent with
        | false => cases hreply
        | true =>
            obtain rfl := List.mem_singleton.mp hreply
            simp [success_status hcode] at hsuccess
      · intro id trace now htrace hnow hreceived
        have hprefix : marks (stepsOf id now) <+: marks events :=
          htrace ▸ (stepsOf_mono hnow).filterMap markOf
        rw [hmarks] at hprefix ⊢
        exact entries_of_received hprefix hreceived
  | late h reply sent entry hresult =>
      refine iff_of_false (fun hlogged => ?_) (by simp [h])
      cases sent with
      | false =>
          -- The success is logged although the client was not told of it.
          have haccurate := hlogged.accurate entry (by rw [hmarks]; exact List.mem_singleton_self _)
          obtain ⟨reply', hreply, -⟩ := haccurate.mp hresult
          rw [hmarks] at hreply
          cases hreply
      | true =>
          -- The moment between the reply and the entry.
          obtain ⟨now, hnow, hone⟩ := exists_prefix_marks hmarks
          have hseen := hlogged.before 0 (events.map (Prod.mk 0)) (now.map (Prod.mk 0))
            (stepsOf_alone 0 events) (hnow.map _)
          rw [stepsOf_alone, hone, hmarks] at hseen
          exact absurd (hseen (List.cons_ne_nil _ _)) (List.cons_ne_nil _ _).symm
  | unlogged h reply sent =>
      refine iff_of_false (fun hlogged => ?_) (by simp [h])
      obtain ⟨entry, hentry, -⟩ := hlogged.once
      rw [hmarks] at hentry
      cases hentry

end Answered

/-! ## How each handler answers -/

section Handlers

variable {env : Environment σ} {ctx : SftpContext} {msg : SftpClientMessage} {w : World σ}
  {operation path missing : Text} {code : StatusCode}

theorem answered_refuse {result : Text} (hoperation : msg.type.operation = some operation)
    (hresult : result ≠ txt "OK") (hcode : code ≠ .ok) :
    Answered ctx msg false
      (marks ((refuse ctx operation path result code).execute (perform env) w).events) :=
  .refused rfl operation path result code _ hoperation hresult hcode

theorem answered_requireWrite {next : Handler Unit} {proceeds : Bool}
    (hoperation : msg.type.operation = some operation)
    (h : Answered ctx msg proceeds (marks (next.execute (perform env) w).events)) :
    Answered ctx msg (canWrite ctx.perm && proceeds)
      (marks ((requireWrite ctx operation path next).execute (perform env) w).events) := by
  unfold requireWrite
  cases hwrite : canWrite ctx.perm with
  | false => exact answered_refuse hoperation (by decide) (by decide)
  | true => exact h

theorem answered_withResolved {mustExist : Bool} {next : Text → Handler Unit}
    {proceeds : σ × Text → Bool} (hoperation : msg.type.operation = some operation)
    (hmissing : missing ≠ txt "OK") (hcode : code ≠ .ok)
    (h : ∀ e full, Answered ctx msg (proceeds (e, full))
      (marks ((next full).execute (perform env) { w with env := e }).events)) :
    Answered ctx msg ((resolvedIn env ctx w.env path mustExist).any proceeds)
      (marks ((withResolved ctx operation path mustExist missing code next).execute (perform env)
        w).events) := by
  cases hresolved : resolvedIn env ctx w.env path mustExist with
  | none =>
      rw [execute_withResolved_none hresolved]
      exact answered_refuse hoperation hmissing hcode
  | some resolved =>
      obtain ⟨e, full⟩ := resolved
      rw [execute_withResolved hresolved]
      exact h e full

theorem answered_callOnPath {w' : World σ} {p : Handler Bool} {events : List (Event Call.Answer)}
    {ok : Bool} (hoperation : msg.type.operation = some operation)
    (hp : p.execute (perform env) w = ⟨events, w', .ok ok⟩) (hevents : marks events = []) :
    Answered ctx msg ok
      (marks ((callOnPath ctx operation path p).execute (perform env) w).events) := by
  rw [callOnPath, execute_bind_ok hp, Execution.after_events, marks_append, hevents]
  cases ok with
  | true => exact .late rfl _ _ _ rfl
  | false => exact answered_refuse hoperation (by decide) (by decide)

theorem answered_sftpDoSetstat (htype : msg.type = .setstat) :
    Answered ctx msg (canWrite ctx.perm && (resolvedIn env ctx w.env msg.filename true).isSome)
      (marks ((sftpDoSetstat ctx msg).execute (perform env) w).events) := by
  have hoperation : msg.type.operation = some (txt "SETSTAT") := by rw [htype]; rfl
  have hany : (resolvedIn env ctx w.env msg.filename true).isSome =
      (resolvedIn env ctx w.env msg.filename true).any fun _ => true := by
    cases resolvedIn env ctx w.env msg.filename true <;> rfl
  rw [hany]
  apply answered_requireWrite hoperation
  exact answered_withResolved hoperation (by decide) (by decide) fun _ _ => .late rfl _ _ _ rfl

/-- MKDIR, RMDIR and REMOVE. -/
theorem answered_pathCall {mustExist : Bool} {p : Text → Handler Bool} {ok : σ × Text → Bool}
    (hoperation : msg.type.operation = some operation) (hmissing : missing ≠ txt "OK")
    (hcode : code ≠ .ok)
    (hp : ∀ e full, ∃ events w', (p full).execute (perform env) { w with env := e } =
      ⟨events, w', .ok (ok (e, full))⟩ ∧ marks events = []) :
    Answered ctx msg
      (canWrite ctx.perm && (resolvedIn env ctx w.env msg.filename mustExist).any ok)
      (marks ((requireWrite ctx operation msg.filename <|
        withResolved ctx operation msg.filename mustExist missing code fun full =>
          callOnPath ctx operation msg.filename (p full)).execute (perform env) w).events) := by
  apply answered_requireWrite hoperation
  refine answered_withResolved hoperation hmissing hcode fun e full => ?_
  obtain ⟨events, w', hexecute, hevents⟩ := hp e full
  exact answered_callOnPath hoperation hexecute hevents

theorem answered_sftpDoRename (htype : msg.type = .rename) :
    Answered ctx msg
      (canWrite ctx.perm && (resolvedIn env ctx w.env msg.filename true).any fun (e, source) =>
        match msg.submessage <|> msg.strData with
        | none => true
        | some dstPath => (resolvedIn env ctx e dstPath false).any fun (e, target) =>
            (env.answer e (.rename source target)).1)
      (marks ((sftpDoRename ctx msg).execute (perform env) w).events) := by
  have hoperation : msg.type.operation = some (txt "RENAME") := by rw [htype]; rfl
  have hmissing : txt "NO_SUCH_PATH" ≠ txt "OK" := by decide
  have hcode : StatusCode.noSuchPath ≠ .ok := by decide
  apply answered_requireWrite hoperation
  refine answered_withResolved hoperation (by decide) (by decide) fun e source => ?_
  cases msg.submessage <|> msg.strData with
  | none => exact .unlogged rfl _ _
  | some dstPath =>
      dsimp only
      refine answered_withResolved (w := { w with env := e }) hoperation hmissing hcode
        fun e target => ?_
      simp only [request_bind, execute_call_ok _ (perform_os _), Execution.after_events,
        marks_append]
      cases (env.answer e (.rename source target)).1 with
      | true => exact .late rfl _ _ _ rfl
      | false => exact answered_refuse hoperation (by decide) (by decide)

theorem execute_closeData (env : Environment σ) (data : HandleData) (w : World σ) :
    ∃ e events, (closeData data).execute (perform env) w = ⟨events, { w with env := e }, .ok ()⟩ ∧
      marks events = [] := by
  rcases data with ⟨fp, path⟩ | ⟨path, dir⟩
  · cases fp with
    | none => exact ⟨w.env, [], rfl, rfl⟩
    | some fp => exact ⟨_, _, rfl, rfl⟩
  · cases dir with
    | none => exact ⟨w.env, [], rfl, rfl⟩
    | some dir => exact ⟨_, _, rfl, rfl⟩

/-- The end of OPEN and OPENDIR: the handle is sent before the entry is
written, and without a free handle there is no entry. -/
theorem answered_giveHandle {info : ObjectId} {data : HandleData}
    (hlive : w.live info = some data) :
    Answered ctx msg true
      (marks ((giveHandle ctx operation path info data).execute (perform env) w).events) := by
  have hdelete : ∀ (e : σ) (table : SlotTable 256 ObjectId),
      perform env ⟨e, table, w.objects⟩ (.delete data.kind info) =
        .ok ((), World.set ⟨e, table, w.objects⟩ info ⟨data, true⟩) := fun e table =>
    perform_delete_eq_ok_iff.mpr ⟨data, hlive, rfl, rfl⟩
  unfold giveHandle
  cases hchoose : env.slots.choose w.table with
  | none =>
      have halloc : perform env w (.handleAlloc info) = .ok (none, w) := by
        rw [perform_handleAlloc, hchoose]
      obtain ⟨e, events, hclose, hevents⟩ := execute_closeData env data w
      simp only [request_bind, execute_call_ok _ halloc, execute_bind_ok hclose,
        execute_call_ok _ (hdelete e w.table), Execution.after_events, marks_append, hevents]
      exact .unlogged rfl _ _
  | some slot =>
      have halloc : perform env w (.handleAlloc info) =
          .ok (some slot, { w with table := w.table.put slot info }) := by
        rw [perform_handleAlloc, hchoose]
      simp only [request_bind, execute_call_ok _ halloc, reply, execute_call_ok _ (perform_os _),
        Execution.after_events, marks_append]
      cases (env.answer w.env (.reply (.handle slot))).1 with
      | true => exact .late rfl _ _ _ rfl
      | false =>
          obtain ⟨e, events, hclose, hevents⟩ := execute_closeData env data
            ⟨(env.answer w.env (.reply (.handle slot))).2, w.table.put slot info, w.objects⟩
          simp only [Bool.false_eq_true, if_false, execute_bind_ok hclose,
            execute_call_ok _ perform_handleRemove_string,
            execute_call_ok _ (hdelete e _), Execution.after_events, marks_append, hevents]
          exact .late rfl _ _ _ rfl

theorem answered_sftpDoOpen (htype : msg.type = .open) :
    Answered ctx msg
      (!openDenied ctx.perm msg.flags &&
        (resolvedIn env ctx w.env msg.filename (msg.flags &&& OpenFlags.creat == 0)).any
          fun (e, full) => (env.answer e (.fopen full (sftpFlagsToMode msg.flags).1)).1.isSome)
      (marks ((sftpDoOpen ctx msg).execute (perform env) w).events) := by
  have hoperation : msg.type.operation = some (txt "OPEN") := by rw [htype]; rfl
  unfold sftpDoOpen
  cases hdenied : openDenied ctx.perm msg.flags with
  | true => exact answered_refuse hoperation (by decide) (by decide)
  | false =>
      refine answered_withResolved hoperation (by decide) (by decide) fun e full => ?_
      simp only [request_bind, execute_call_ok _ (perform_os _), Execution.after_events,
        marks_append]
      cases (env.answer e (.fopen full (sftpFlagsToMode msg.flags).1)).1 with
      | none => exact answered_refuse hoperation (by decide) (by decide)
      | some id =>
          simp only [execute_call_ok _ (perform_new _), Execution.after_events, marks_append]
          exact answered_giveHandle (live_last w.objects rfl)

theorem answered_sftpDoOpendir (htype : msg.type = .opendir) :
    Answered ctx msg
      (canRead ctx.perm && (resolvedIn env ctx w.env msg.filename true).any fun (e, full) =>
        (env.answer e (.opendir full)).1.isSome)
      (marks ((sftpDoOpendir ctx msg).execute (perform env) w).events) := by
  have hoperation : msg.type.operation = some (txt "OPENDIR") := by rw [htype]; rfl
  unfold sftpDoOpendir
  cases hread : canRead ctx.perm with
  | false => exact answered_refuse hoperation (by decide) (by decide)
  | true =>
      refine answered_withResolved hoperation (by decide) (by decide) fun e full => ?_
      simp only [request_bind, execute_call_ok _ (perform_new _), execute_call_ok _ (perform_os _)]
      cases (env.answer e (.opendir full)).1 with
      | none =>
          have hdelete := perform_delete_last env (w := ⟨(env.answer e (.opendir full)).2, w.table,
            w.objects ++ [⟨.directory ⟨full, none⟩, false⟩]⟩) rfl
          dsimp only [HandleData.kind] at hdelete
          rw [execute_call_ok _ hdelete]
          exact answered_refuse hoperation (by decide) (by decide)
      | some dir =>
          have hstore := perform_store_last env (w := ⟨(env.answer e (.opendir full)).2, w.table,
            w.objects ++ [⟨.directory ⟨full, none⟩, false⟩]⟩) (.directory ⟨full, some dir⟩) rfl
            (by rfl)
          dsimp only
          rw [execute_call_ok _ hstore]
          exact answered_giveHandle (live_last w.objects rfl)

end Handlers

theorem serve_answered (env : Environment σ) (ctx : SftpContext) (s : Session σ)
    {msg : SftpClientMessage} (htype : msg.type.operation ≠ none) :
    Answered ctx msg (s.proceeds env ctx msg) (marks (s.serve env ctx msg).events) := by
  unfold Session.serve processSftp Session.proceeds
  cases h : msg.type with
  | «open» => exact answered_sftpDoOpen h
  | opendir => exact answered_sftpDoOpendir h
  | setstat => exact answered_sftpDoSetstat h
  | mkdir =>
      have hoperation : msg.type.operation = some (txt "MKDIR") := by rw [h]; rfl
      exact answered_pathCall hoperation (by decide) (by decide) fun _ _ => ⟨_, _, rfl, rfl⟩
  | rmdir =>
      have hoperation : msg.type.operation = some (txt "RMDIR") := by rw [h]; rfl
      exact answered_pathCall hoperation (by decide) (by decide) fun _ _ => ⟨_, _, rfl, rfl⟩
  | remove =>
      have hoperation : msg.type.operation = some (txt "REMOVE") := by rw [h]; rfl
      exact answered_pathCall hoperation (by decide) (by decide) fun _ _ => ⟨_, _, rfl, rfl⟩
  | rename => exact answered_sftpDoRename h
  | _ => exact absurd (by rw [h]; rfl) htype

/-- Accuracy and order of the activity log. For every message that is to
be logged, in every session and every environment, the log is as it
should be exactly when the message is refused. -/
theorem activity_logged_iff (env : Environment σ) (ctx : SftpContext) (s : Session σ)
    (msg : SftpClientMessage) (htype : msg.type.operation ≠ none) :
    Logged ctx msg (s.serve env ctx msg).events ↔ s.proceeds env ctx msg = false :=
  (serve_answered env ctx s htype).logged_iff

theorem activity_logged_iff_missing :
    Logged bobContext { type := .remove, filename := "absent" }
      ((Session.start ()).serve (granting srvRealpath [] []) bobContext
        { type := .remove, filename := "absent" }).events :=
  (activity_logged_iff _ _ _ _ (by decide)).mpr (by decide +kernel)

/-- A MKDIR that succeeds is answered before it is logged. -/
theorem activity_logged_late :
    ¬ ∀ (env : Environment Unit) (ctx : SftpContext) (s : Session Unit) (msg : SftpClientMessage),
      msg.type.operation ≠ none → Logged ctx msg (s.serve env ctx msg).events := by
  intro h
  have hmkdir : MessageType.mkdir.operation ≠ none := by decide
  have hlogged := h (granting srvRealpath [] []) bobContext (Session.start ())
    { type := .mkdir, filename := "new" } hmkdir
  have hproceeds := (serve_answered _ _ _ hmkdir).logged_iff.mp hlogged
  exact absurd hproceeds (by decide +kernel)

end MockServices.Sftp
