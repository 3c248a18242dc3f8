import MockServices.Sftp.Turns

/-!
# The kinds of the objects behind handles

READ, WRITE and FSTAT cast the object behind a handle to `FileData`,
READDIR casts it to `DirData`, and none of them looks at the kind tag
that CLOSE looks at. Each message goes wrong exactly when it reaches an
object of the other kind.
-/

namespace MockServices.Sftp

open Foundations

variable {σ : Type}

/-- The kind of object that a message is meant for. -/
def MessageType.expects : MessageType → Option HandleKind
  | .read | .write | .fstat => some .file
  | .readdir => some .directory
  | _ => none

/-- The message names an object of the other kind than it is meant for. -/
def Mismatched (w : World σ) (msg : SftpClientMessage) : Prop :=
  ∃ kind ∈ msg.type.expects, ∃ info ∈ w.named msg, ∃ cell ∈ w.objects[info]?, cell.data.kind ≠ kind

/-- The calls on the stream of an object. -/
def Call.usesStream : Call → Bool
  | .os (.fseek _ _) | .os (.fread _ _) | .os (.fwrite _ _) | .os (.fflush _) => true
  | .os (.fclose _) | .os (.entries _) | .os (.setEntries _ _) | .os (.closedir _) => true
  | _ => false

/-- Refused with an error status, and nothing done to any object. -/
structure Refused (w : World σ) (x : Execution Call.Answer (World σ) Fault Unit) : Prop where
  status : ∃ code, code ≠ .ok ∧ code ≠ .eof ∧ replies x.events = [.status code none]
  objects : x.world.objects = w.objects
  streams : ∀ e ∈ x.events, e.1.usesStream = false

/-- No object is used as one of the other kind, and a message for the
other kind is refused. -/
structure KindLaw (env : Environment σ) (ctx : SftpContext) (s : Session σ)
    (msg : SftpClientMessage) : Prop where
  uses : ∀ fault, (s.serve env ctx msg).error? = some fault → fault.wrongKind = false
  refuses : Mismatched s.world msg → Refused s.world (s.serve env ctx msg)

/-- The message is not a READ, FSTAT or READDIR, or a WRITE with the write
permission, that names an object of the other kind. -/
def RightKind (ctx : SftpContext) (s : Session σ) (msg : SftpClientMessage) : Prop :=
  ¬ (Mismatched s.world msg ∧ (msg.type = .write → canWrite ctx.perm = true))

theorem uses_eq_some_iff {ctx : SftpContext} {msg : SftpClientMessage} {kind : HandleKind} :
    ctx.uses msg = some kind ↔
      msg.type.expects = some kind ∧ (msg.type = .write → canWrite ctx.perm = true) := by
  unfold SftpContext.uses MessageType.expects
  cases msg.type <;> simp [and_comm]

theorem misuse_wrongKind {w : World σ} {info : ObjectId} {cell : Cell} (kind : HandleKind)
    (h : w.objects[info]? = some cell) :
    (w.misuse kind info).wrongKind = decide (cell.data.kind ≠ kind) := by
  simp [World.misuse, h]

theorem expects_eq_none_of_givesHandle {msg : SftpClientMessage}
    (h : msg.type.givesHandle = true) : msg.type.expects = none := by
  cases htype : msg.type <;> simp [htype, MessageType.givesHandle, MessageType.expects] at h ⊢

/-- An object of the other kind is refused by no message that uses it. -/
theorem wrongKind_of_not_rightKind (env : Environment σ) {ctx : SftpContext} {s : Session σ}
    {msg : SftpClientMessage} (h : ¬ RightKind ctx s msg) :
    ∃ fault, (s.serve env ctx msg).error? = some fault ∧ fault.wrongKind = true := by
  obtain ⟨⟨kind, hexpects, info, hnamed, cell, hcell, hkind⟩, hwrite⟩ := not_not.mp h
  have huses : ctx.uses msg = some kind := uses_eq_some_iff.mpr ⟨hexpects, hwrite⟩
  cases serve_turn env ctx s msg with
  | idle fits idle unclosed =>
      have hlive := fits.use kind huses info hnamed
      obtain ⟨data, hdata, hdatakind⟩ := Option.map_eq_some_iff.mp hlive
      obtain rfl := Option.some.inj ((live_eq_some_iff.mp hdata).symm.trans hcell)
      exact absurd hdatakind hkind
  | fault info' fault named misused error =>
      obtain rfl := Option.some.inj (named.symm.trans hnamed)
      rcases misused with ⟨htype, -⟩ | ⟨kind', hkind', -, rfl⟩
      · simp [htype, MessageType.expects] at hexpects
      · obtain rfl := Option.some.inj (huses.symm.trans hkind')
        exact ⟨_, error, by simpa [misuse_wrongKind kind hcell] using hkind⟩
  | discarded data gives => simp [expects_eq_none_of_givesHandle gives] at hexpects
  | given data slot gives => simp [expects_eq_none_of_givesHandle gives] at hexpects
  | orphaned data slot gives => simp [expects_eq_none_of_givesHandle gives] at hexpects
  | closed info' data type => simp [type, MessageType.expects] at hexpects

theorem wrongKind_eq_false_of_rightKind {env : Environment σ} {ctx : SftpContext} {s : Session σ}
    {msg : SftpClientMessage} (h : RightKind ctx s msg) {fault : Fault}
    (herror : (s.serve env ctx msg).error? = some fault) : fault.wrongKind = false := by
  cases serve_turn env ctx s msg with
  | fault info fault' named misused error =>
      obtain rfl := Option.some.inj (error.symm.trans herror)
      rcases misused with ⟨-, -, rfl⟩ | ⟨kind, hkind, -, rfl⟩
      · rfl
      · obtain ⟨hexpects, hwrite⟩ := uses_eq_some_iff.mp hkind
        cases hcell : s.world.objects[info]? with
        | none => simp [World.misuse, hcell]
        | some cell =>
            rw [misuse_wrongKind kind hcell]
            have hsame : cell.data.kind = kind := by
              by_contra hne
              exact h ⟨⟨kind, hexpects, info, named, cell, hcell, hne⟩, hwrite⟩
            simp [hsame]
  | idle fits idle => simp [idle.ok] at herror
  | discarded data gives ok => simp [ok] at herror
  | given data slot gives ok => simp [ok] at herror
  | orphaned data slot gives ok => simp [ok] at herror
  | closed info data type named live ok => simp [ok] at herror

/-- WRITE without the write permission does not reach the object. -/
theorem refused_of_not_canWrite {env : Environment σ} {ctx : SftpContext} {s : Session σ}
    {msg : SftpClientMessage} (htype : msg.type = .write) (hwrite : canWrite ctx.perm = false) :
    Refused s.world (s.serve env ctx msg) := by
  have hserve : s.serve env ctx msg =
      (replyStatus .permissionDenied).execute (perform env) s.world := by
    simp [Session.serve, processSftp, htype, sftpDoWrite, hwrite]
  rw [hserve]
  constructor
  · exact ⟨.permissionDenied, by decide, by decide, by
      simp [replyStatus, reply, Program.execute_call, replies]⟩
  · exact ((makesQuiet_replyStatus .permissionDenied none).idle env s.world).objects
  · simp [replyStatus, reply, Program.execute_call, Call.usesStream]

/-- The step lemma: one message in any state. -/
theorem kindLaw_iff (env : Environment σ) (ctx : SftpContext) (s : Session σ)
    (msg : SftpClientMessage) : KindLaw env ctx s msg ↔ RightKind ctx s msg := by
  constructor
  · intro h
    by_contra hwrong
    obtain ⟨fault, herror, hkind⟩ := wrongKind_of_not_rightKind env hwrong
    simp [h.uses fault herror] at hkind
  · intro h
    refine ⟨fun fault => wrongKind_eq_false_of_rightKind h, fun hmismatch => ?_⟩
    have hnot : ¬ (msg.type = .write → canWrite ctx.perm = true) := fun hw => h ⟨hmismatch, hw⟩
    push Not at hnot
    exact refused_of_not_canWrite hnot.1 (by simpa using hnot.2)

/-- The kinds of handles. In every run, from every handle table, the law
of kinds holds at every step exactly when every message that uses an
object names one of its own kind. -/
theorem handle_kinds_iff (σ : Type) (env : Environment σ) (ctx : SftpContext) (s : Session σ)
    (msgs : List SftpClientMessage) :
    Along (step env ctx) (KindLaw env ctx) s msgs ↔
      Along (step env ctx) (RightKind ctx) s msgs :=
  along_congr (kindLaw_iff env ctx) s msgs

/-! ## A READ on a directory handle -/

def carolRoot : Canonical where
  names := ["srv", "carol"]
  isName := by decide

def carolContext : SftpContext where
  username := "carol"
  root := carolRoot.text
  perm := SftpPermission.all

theorem handle_kinds_broken :
    ¬ ∀ (σ : Type) (env : Environment σ) (ctx : SftpContext) (init : σ)
      (msgs : List SftpClientMessage),
      Along (step env ctx) (KindLaw env ctx) (Session.start init) msgs := by
  intro h
  have hread : ((step (granting (fun _ => some carolRoot) [] []) carolContext (Session.start ())
      { type := .opendir, filename := "/" }).map fun t =>
        (t.serve (granting (fun _ => some carolRoot) [] []) carolContext
          { type := .read, handle := some 0, len := 1 }).error?) = some (some ⟨false, true⟩) := by
    decide +kernel
  obtain ⟨t, ht, herror⟩ := Option.map_eq_some_iff.mp hread
  have hlaw := h Unit (granting (fun _ => some carolRoot) [] []) carolContext ()
    [{ type := .opendir, filename := "/" }, { type := .read, handle := some 0, len := 1 }]
  exact absurd ((hlaw.2 t ht).1.uses _ herror) (by decide)

end MockServices.Sftp
