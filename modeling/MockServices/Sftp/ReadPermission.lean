import Mathlib.Tactic.SplitIfs
import MockServices.Sftp.HandlerRules

/-!
# What a session without the read permission is told

OPEN and OPENDIR check the permission, READ and READDIR trust the handle.
Whether a stream can be read is decided by the mode that OPEN derives
from its flags, so a session without the read permission learns nothing
as long as no OPEN gets through with flags that yield a readable mode.
-/

namespace MockServices.Sftp

open Foundations Foundations.Program Foundations.SegmentPath

variable {σ : Type}

/-- The replies that carry file content or names. -/
def Reply.discloses : Reply → Bool
  | .data _ | .name _ _ => true
  | _ => false

/-- No reply of the session carried file content or names. -/
def Silent (s : Session σ) : Prop :=
  ∀ x ∈ s.served, ∀ r ∈ replies x.events, r.discloses = false

/-- The message is no OPEN, or one whose flags are refused, or one whose
flags yield a mode without reading. -/
def OpensUnreadable (perm : SftpPermission) (msg : SftpClientMessage) : Prop :=
  msg.type = .open →
    openDenied perm msg.flags = true ∨ (sftpFlagsToMode msg.flags).1.readable = false

instance (perm : SftpPermission) (msg : SftpClientMessage) : Decidable (OpensUnreadable perm msg) :=
  inferInstanceAs (Decidable (_ → _))

/-- Reading is off exactly for WRITE without READ, together with APPEND,
TRUNC or CREAT. -/
theorem sftpFlagsToMode_readable_eq_false_iff (flags : OpenFlags) :
    (sftpFlagsToMode flags).1.readable = false ↔
      flags &&& (OpenFlags.read ||| OpenFlags.write) = OpenFlags.write ∧
        (flags &&& OpenFlags.append ≠ 0 ∨ flags &&& OpenFlags.trunc ≠ 0 ∨
          flags &&& OpenFlags.creat ≠ 0) := by
  have hdistinct : OpenFlags.write ≠ OpenFlags.read := by decide
  have hboth : OpenFlags.write ≠ OpenFlags.read ||| OpenFlags.write := by decide
  unfold sftpFlagsToMode
  by_cases hread : flags &&& (OpenFlags.read ||| OpenFlags.write) = OpenFlags.read
  · simp [hread, OpenMode.readable, hdistinct.symm]
  · by_cases hwrite : flags &&& (OpenFlags.read ||| OpenFlags.write) = OpenFlags.write
    · simp only [hwrite, hdistinct, if_true, if_false, true_and]
      split_ifs <;> simp_all [OpenMode.readable]
    · simp only [hread, hwrite, if_false, false_and, iff_false]
      split_ifs <;> simp [OpenMode.readable]

/-- The object is a file whose stream cannot be read. -/
def Unreadable (data : HandleData) : Prop :=
  ∃ fd, data = .file fd ∧ ∀ fp ∈ fd.fp, fp.mode.readable = false

def unreadableAnswer : (c : Call) → c.Answer → Prop
  | .file _, fd => Unreadable (.file fd)
  | .dir _, _ => False
  | _, _ => True

def tellsNothing : Call → Prop
  | .os (.reply r) => r.discloses = false
  | .new data | .store _ data => Unreadable data
  | _ => True

theorem tellsNothing_housekeeping : Housekeeping tellsNothing := by
  constructor <;> simp [tellsNothing, Reply.discloses]

theorem tellsNothing_handleCalls : HandleCalls tellsNothing := by
  constructor <;> simp [tellsNothing, Reply.discloses]

/-- Nothing comes from a stream that cannot be read. -/
theorem fread_eq_nil {fp : FilePtr} {size : ℕ} (hfp : fp.mode.readable = false)
    (buffer : (OsCall.fread fp size).Answer) : buffer.val = [] :=
  buffer.property.2 hfp

theorem processSftp_tellsNothing {ctx : SftpContext} {msg : SftpClientMessage}
    (hread : canRead ctx.perm = false) (hopen : OpensUnreadable ctx.perm msg) :
    Makes unreadableAnswer tellsNothing (processSftp ctx msg) := by
  have hk : Housekeeping tellsNothing := tellsNothing_housekeeping
  have hh : HandleCalls tellsNothing := tellsNothing_handleCalls
  have hnot : ∀ {P : Prop}, canRead ctx.perm = true → P := fun h => by simp [hread] at h
  unfold processSftp
  cases htype : msg.type with
  | «open» =>
      refine makes_sftpDoOpen hk hh fun full hdenied _ => ⟨trivial, fun id _ => ⟨?_, trivial⟩⟩
      refine ⟨_, rfl, fun fp hfp => ?_⟩
      obtain rfl := Option.some.inj hfp
      exact (hopen htype).resolve_left (by simp [hdenied])
  | close =>
      exact makes_sftpDoClose hk trivial (fun _ _ => trivial) (fun _ => trivial)
        (fun _ => trivial) (fun _ => trivial) (fun _ _ _ _ _ _ => trivial) fun _ => trivial
  | read =>
      refine makes_withFile hk (fun _ => trivial) ?_
      rintro info fd - ⟨_, ⟨⟩, hfd⟩
      refine makes_seekFirst hk (fun _ _ _ => trivial) fun fp hfp => ?_
      exact makes_readFrom hk (fun _ => trivial) fun _ buffer hne =>
        absurd (fread_eq_nil (hfd fp hfp) buffer) hne
  | write =>
      exact makes_sftpDoWrite hk fun _ => makes_withFile hk (fun _ => trivial) fun info fd _ _ =>
        makes_seekFirst hk (fun _ _ _ => trivial) fun fp _ =>
          makes_writeTo hk (fun _ => trivial) trivial
  | opendir => exact makes_sftpDoOpendir hk hh fun full h _ => hnot h
  | readdir => exact makes_withDir hk (fun _ => trivial) fun info dd h => h.elim
  | stat | lstat => exact makes_sftpDoStat hk (fun _ _ => trivial) fun _ => rfl
  | fstat =>
      exact makes_withFile hk (fun _ => trivial) fun info fd _ _ =>
        makes_replyFstat hk trivial fun _ => rfl
  | setstat => exact makes_sftpDoSetstat hk
  | fsetstat => exact makes_sftpDoFsetstat hk
  | mkdir => exact makes_sftpDoMkdir hk fun _ _ _ => trivial
  | rmdir => exact makes_sftpDoRmdir hk fun _ _ _ => trivial
  | remove => exact makes_sftpDoRemove hk fun _ _ _ => trivial
  | rename => exact makes_sftpDoRename hk fun _ _ _ _ _ _ _ => trivial
  | realpath => exact makes_sftpDoRealpath hk fun h => hnot h
  | other => exact makes_replyStatus hk _ _

/-- Every object of the world is a file that cannot be read. -/
def AllUnreadable (w : World σ) : Prop := ∀ cell ∈ w.objects, Unreadable cell.data

theorem AllUnreadable.live {w : World σ} (h : AllUnreadable w) {info : ObjectId}
    {data : HandleData} (hlive : w.live info = some data) : Unreadable data :=
  h _ (List.mem_of_getElem? (live_eq_some_iff.mp hlive))

theorem AllUnreadable.set {w : World σ} (h : AllUnreadable w) {cell : Cell}
    (hcell : Unreadable cell.data) (info : ObjectId) : AllUnreadable (w.set info cell) := by
  intro c hc
  rcases List.mem_or_eq_of_mem_set hc with hc | rfl
  · exact h c hc
  · exact hcell

theorem perform_unreadable {env : Environment σ} (w : World σ) (c : Call) (answer : c.Answer)
    (w' : World σ) (h : AllUnreadable w) (hc : tellsNothing c)
    (hperform : perform env w c = .ok (answer, w')) :
    unreadableAnswer c answer ∧ AllUnreadable w' := by
  cases c with
  | os c =>
      obtain ⟨rfl, rfl⟩ := Prod.mk.inj (Except.ok.inj hperform)
      exact ⟨trivial, h⟩
  | logActivity | handle | handleRemove =>
      obtain ⟨rfl, rfl⟩ := Prod.mk.inj (Except.ok.inj hperform)
      exact ⟨trivial, h⟩
  | handleAlloc info =>
      rw [perform_handleAlloc] at hperform
      split at hperform <;> obtain ⟨rfl, rfl⟩ := Prod.mk.inj (Except.ok.inj hperform)
      · exact ⟨trivial, h⟩
      · exact ⟨trivial, h⟩
  | new data =>
      obtain ⟨rfl, rfl⟩ := Prod.mk.inj (Except.ok.inj hperform)
      refine ⟨trivial, fun cell hcell => ?_⟩
      rcases List.mem_append.mp hcell with hcell | hcell
      · exact h cell hcell
      · obtain rfl := List.mem_singleton.mp hcell
        exact hc
  | store info data =>
      obtain ⟨-, rfl⟩ := perform_store_eq_ok_iff.mp hperform
      have hcell : Unreadable (Cell.mk data false).data := hc
      exact ⟨trivial, h.set hcell info⟩
  | kindOf info =>
      obtain ⟨data, -, -, rfl⟩ := perform_kindOf_eq_ok_iff.mp hperform
      exact ⟨trivial, h⟩
  | file info =>
      obtain ⟨hlive, rfl⟩ := perform_file_eq_ok_iff.mp hperform
      exact ⟨h.live hlive, h⟩
  | dir info =>
      obtain ⟨hlive, rfl⟩ := perform_dir_eq_ok_iff.mp hperform
      obtain ⟨fd, hfd, -⟩ := h.live hlive
      simp at hfd
  | delete kind info =>
      obtain ⟨data, hlive, -, rfl⟩ := perform_delete_eq_ok_iff.mp hperform
      exact ⟨trivial, h.set (h.live hlive) info⟩

/-- The step lemma: nothing is told, and no readable stream comes into being. -/
theorem serve_silent (env : Environment σ) {ctx : SftpContext} {s : Session σ}
    {msg : SftpClientMessage} (hread : canRead ctx.perm = false)
    (hopen : OpensUnreadable ctx.perm msg) (h : AllUnreadable s.world) :
    (∀ r ∈ replies (s.serve env ctx msg).events, r.discloses = false) ∧
      AllUnreadable (s.serve env ctx msg).world := by
  obtain ⟨hevents, hworld⟩ :=
    (processSftp_tellsNothing hread hopen).invariant perform_unreadable h
  refine ⟨fun r hr => ?_, hworld⟩
  obtain ⟨sent, he⟩ := mem_replies.mp hr
  exact hevents _ he

/-- The run lemma. -/
theorem always_silent {env : Environment σ} {ctx : SftpContext} (hread : canRead ctx.perm = false)
    {init : σ} {msgs : List SftpClientMessage}
    (hall : Along (step env ctx) (fun _ msg => OpensUnreadable ctx.perm msg) (Session.start init)
      msgs) : Always (step env ctx) Silent (Session.start init) msgs := by
  refine always_of_invariant_along (I := fun s => Silent s ∧ AllUnreadable s.world) ?_
    (fun _ h => h.1) ?_ hall
  · rintro s msg t ⟨hsilent, hworld⟩ hopen hstep
    obtain ⟨-, rfl⟩ := step_eq_some_iff.mp hstep
    obtain ⟨hreplies, hworld'⟩ := serve_silent env hread hopen hworld
    refine ⟨fun x hx => ?_, hworld'⟩
    rcases List.mem_append.mp hx with hx | hx
    · exact hsilent x hx
    · obtain rfl := List.mem_singleton.mp hx
      exact hreplies
  · simp [Silent, AllUnreadable, Session.start]

/-! ## The other flags -/

/-- Where the operating system leads every path to the root, the resolver
answers with the root. -/
theorem resolvePath_const (root : Canonical) (clientPath : Text) (mustExist : Bool) :
    resolvePath (fun _ => some root) root.text clientPath mustExist = root.text := by
  have hresembles : Resembles root.text root.text := by
    have hroot : root.text = '/' :: ['/'].intercalate root.names := rfl
    rw [hroot, ← prefix_iff_resembles, hasCaseInsensitivePrefix_iff]
  rw [resolvePath_eq]
  exact if_pos hresembles

theorem first_choose_empty :
    (SlotChoice.first 256 ObjectId).choose (fun _ => none) = some 0 := by decide +kernel

/-- The OPEN gets through and leaves a readable stream behind the first handle. -/
theorem step_granted {ctx : SftpContext} {root : Canonical} (hroot : ctx.root = root.text)
    {msg : SftpClientMessage} (htype : msg.type = .open)
    (hdenied : openDenied ctx.perm msg.flags = false) :
    ∃ t, step (granting (fun _ => some root) [0] []) ctx (Session.start ()) msg = some t ∧
      t.fault = none ∧ t.world = ⟨(), SlotTable.put (fun _ => none) 0 0,
        [⟨.file ⟨some ⟨0, (sftpFlagsToMode msg.flags).1⟩, root.text⟩, false⟩]⟩ := by
  have hne : root.text ≠ [] := absolute_ne_nil _ _
  refine ⟨_, step_eq_some_iff.mpr ⟨rfl, rfl⟩, ?_, ?_⟩ <;>
    simp [Session.serve, processSftp, htype, sftpDoOpen, hdenied, withResolved, Session.start,
      SftpContext.resolvePath, hroot, resolvePath_const, hne, execute_call, request, granting,
      grantingAnswer, giveHandle, perform_handleAlloc, first_choose_empty, reply,
      SftpContext.logActivity]

/-- Any other OPEN lets the next READ through. -/
theorem not_silent_of_not_opensUnreadable {ctx : SftpContext} {root : Canonical}
    (hroot : ctx.root = root.text) {msg : SftpClientMessage}
    (hmsg : ¬ OpensUnreadable ctx.perm msg) :
    ¬ Always (step (granting (fun _ => some root) [0] []) ctx) Silent (Session.start ())
      [msg, { type := .read, handle := some 0, len := 1 }] := by
  unfold OpensUnreadable at hmsg
  push Not at hmsg
  obtain ⟨htype, hdenied, hreadable⟩ := hmsg
  obtain ⟨t, ht, hfault, hworld⟩ := step_granted hroot htype (by simpa using hdenied)
  intro h
  have hsilent := (h.2 t ht).2 _ (step_eq_some_iff.mpr ⟨hfault, rfl⟩)
  have hdata : Reply.data [0] ∈ replies (t.serve (granting (fun _ => some root) [0] []) ctx
      { type := .read, handle := some 0, len := 1 }).events := by
    have hmode : (sftpFlagsToMode msg.flags).1.readable = true := by simpa using hreadable
    simp [Session.serve, processSftp, sftpDoRead, withFile, seekFirst, readFrom, withHandle,
      hworld, execute_call, perform_file, World.live, granting, grantingAnswer, hmode,
      replyOrFail, reply, request, replies]
  exact absurd (hsilent _ (List.mem_append_right _ (List.mem_singleton_self _)) _ hdata) (by decide)

/-- Secrecy of sessions without the read permission. A run whose OPENs all
yield unreadable streams or are refused tells nothing; any other OPEN can
be followed by a READ that tells something. -/
theorem disclosure_iff (ctx : SftpContext) :
    (∀ (σ : Type) (env : Environment σ), canRead ctx.perm = false →
      ∀ init msgs, Along (step env ctx) (fun _ msg => OpensUnreadable ctx.perm msg)
          (Session.start init) msgs →
        Always (step env ctx) Silent (Session.start init) msgs) ∧
    (∀ root : Canonical, ctx.root = root.text →
      ∀ msg, ¬ OpensUnreadable ctx.perm msg →
        ∃ (env : Environment Unit) (next : SftpClientMessage),
          ¬ Always (step env ctx) Silent (Session.start ()) [msg, next]) :=
  ⟨fun _ _ hread _ _ => always_silent hread,
    fun _ hroot _ hmsg => ⟨_, _, not_silent_of_not_opensUnreadable hroot hmsg⟩⟩

def dropboxRoot : Canonical where
  names := ["srv", "drop"]
  isName := by decide

def dropboxContext (perm : SftpPermission) : SftpContext where
  username := "guest"
  root := dropboxRoot.text
  perm := perm

theorem disclosure_iff_dropbox :
    Always (step (granting (fun _ => some dropboxRoot) [104, 105] [])
        (dropboxContext SftpPermission.write)) Silent (Session.start ())
      [{ type := .open, filename := "in", flags := OpenFlags.write ||| OpenFlags.creat },
        { type := .write, handle := some 0, data := [1] },
        { type := .read, handle := some 0, len := 10 }] :=
  (disclosure_iff (dropboxContext SftpPermission.write)).1 Unit _ (by decide) () _
    (by decide +kernel)

/-- OPEN with no flags at all and a READ, in a session without any permission. -/
theorem not_silent_without_permission :
    ¬ ∀ (σ : Type) (env : Environment σ) (ctx : SftpContext), canRead ctx.perm = false →
      ∀ init msgs, Always (step env ctx) Silent (Session.start init) msgs := by
  intro h
  have hopen : ¬ OpensUnreadable (dropboxContext SftpPermission.none).perm
      { type := .open, filename := "in" } := by decide
  have hroot : (dropboxContext SftpPermission.none).root = dropboxRoot.text := rfl
  exact not_silent_of_not_opensUnreadable hroot hopen
    (h Unit _ (dropboxContext SftpPermission.none) (by decide) () _)

end MockServices.Sftp
