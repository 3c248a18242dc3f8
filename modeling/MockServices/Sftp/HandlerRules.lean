import MockServices.Sftp.Handlers

/-!
# One rule for each handler

For any answers relied on and any calls to be guaranteed, a handler
ensures the guarantee when the calls that are its own are guaranteed.
The calls that every handler makes are grouped as housekeeping.
-/

namespace MockServices.Sftp

open Foundations Foundations.Program

/-- The calls that the guarantee has to leave to every handler. -/
structure Housekeeping (guar : Call → Prop) : Prop where
  log : ∀ user operation path result, guar (.logActivity user operation path result)
  status : ∀ code message, guar (.os (.reply (.status code message)))
  realpath : guar (.os .realpath)
  calloc : guar (.os .calloc)
  handle : ∀ handle, guar (.handle handle)

section Rules

variable {rely : (c : Call) → c.Answer → Prop} {guar : Call → Prop} {ctx : SftpContext}
  {msg : SftpClientMessage} {α : Type}

/-- A guarantee about the calls alone. -/
abbrev Makes (rely : (c : Call) → c.Answer → Prop) (guar : Call → Prop) (p : Handler α) : Prop :=
  p.Ensures rely guar fun _ => True

/-- `full` is a non-empty answer of `resolve_path`. -/
def Resolved (rely : (c : Call) → c.Answer → Prop) (ctx : SftpContext) (path : Text)
    (mustExist : Bool) (full : Text) : Prop :=
  ∃ realpath, rely (.os .realpath) realpath ∧
    full = resolvePath realpath ctx.root path mustExist ∧ full ≠ []

theorem makes_call {c : Call} (h : guar c) : Makes rely guar (call c) := ⟨h, fun _ _ => trivial⟩

theorem makes_bind {β : Type} {p : Handler α} {f : α → Handler β} (hp : Makes rely guar p)
    (hf : ∀ a, Makes rely guar (f a)) : Makes rely guar (p >>= f) :=
  ensures_bind hp fun a _ => hf a

theorem makes_call_bind {β : Type} {c : Call} {f : c.Answer → Handler β} (h : guar c)
    (hf : ∀ answer, rely c answer → Makes rely guar (f answer)) :
    Makes rely guar (call c >>= f) :=
  ⟨h, hf⟩

theorem makes_replyStatus (hk : Housekeeping guar) (code : StatusCode) (message : Option Text) :
    Makes rely guar (replyStatus code message) :=
  ⟨hk.status code message, fun _ _ => trivial⟩

theorem makes_replyOrFail (hk : Housekeeping guar) {r : Reply} (h : guar (.os (.reply r))) :
    Makes rely guar (replyOrFail r) := by
  refine makes_call_bind h fun sent _ => ?_
  cases sent with
  | true => trivial
  | false => exact makes_replyStatus hk _ _

theorem makes_refuse (hk : Housekeeping guar) (operation path result : Text) (code : StatusCode) :
    Makes rely guar (refuse ctx operation path result code) :=
  makes_bind (makes_call (hk.log _ _ _ _)) fun _ => makes_replyStatus hk _ _

theorem makes_requireWrite (hk : Housekeeping guar) {operation path : Text} {next : Handler Unit}
    (h : canWrite ctx.perm = true → Makes rely guar next) :
    Makes rely guar (requireWrite ctx operation path next) := by
  unfold requireWrite
  split
  · exact h ‹_›
  · exact makes_refuse hk _ _ _ _

theorem makes_withResolved (hk : Housekeeping guar) {operation path missing : Text}
    {mustExist : Bool} {code : StatusCode} {next : Text → Handler Unit}
    (h : ∀ full, Resolved rely ctx path mustExist full → Makes rely guar (next full)) :
    Makes rely guar (withResolved ctx operation path mustExist missing code next) := by
  refine ⟨hk.realpath, fun realpath hrealpath => ?_⟩
  change Makes rely guar
    (if resolvePath realpath ctx.root path mustExist = [] then _ else next _)
  split
  · exact makes_refuse hk _ _ _ _
  · exact h _ ⟨realpath, hrealpath, rfl, ‹_›⟩

theorem makes_withHandle (hk : Housekeeping guar) {next : ObjectId → Handler Unit}
    (h : ∀ info, rely (.handle msg.handle) (some info) → Makes rely guar (next info)) :
    Makes rely guar (withHandle msg next) := by
  refine makes_call_bind (hk.handle _) fun info hinfo => ?_
  cases info with
  | none => exact makes_replyStatus hk _ _
  | some info => exact h info hinfo

theorem makes_makeAttr (hk : Housekeeping guar) (name : Text) (size : BitVec 64) (perm : BitVec 32)
    (mtime atime : ℤ) : Makes rely guar (makeAttr name size perm mtime atime) := by
  refine makes_call_bind hk.calloc fun allocated _ => ?_
  cases allocated <;> trivial

theorem makes_statToAttr (hk : Housekeeping guar) {full : Text} (h : guar (.os (.stat full)))
    (display : Text) : Makes rely guar (statToAttr full display) := by
  refine makes_call_bind h fun answer _ => ?_
  cases answer with
  | none => trivial
  | some st => exact makes_makeAttr hk _ _ _ _ _

theorem makes_callOnPath (hk : Housekeeping guar) {operation path : Text} {p : Handler Bool}
    (h : Makes rely guar p) : Makes rely guar (callOnPath ctx operation path p) := by
  refine makes_bind h fun done => ?_
  cases done with
  | true => exact makes_bind (makes_replyStatus hk _ _) fun _ => makes_call (hk.log _ _ _ _)
  | false => exact makes_refuse hk _ _ _ _

/-! ## Path messages -/

theorem makes_sftpDoStat (hk : Housekeeping guar)
    (hstat : ∀ full, Resolved rely ctx msg.filename true full → guar (.os (.stat full)))
    (hattr : ∀ attr, guar (.os (.reply (.attr attr)))) : Makes rely guar (sftpDoStat ctx msg) := by
  refine makes_withResolved hk fun full hfull => ?_
  refine makes_bind (makes_statToAttr hk (hstat full hfull) _) fun attr => ?_
  cases attr with
  | none => exact makes_replyStatus hk _ _
  | some attr => exact makes_replyOrFail hk (hattr attr)

theorem makes_sftpDoSetstat (hk : Housekeeping guar) : Makes rely guar (sftpDoSetstat ctx msg) :=
  makes_requireWrite hk fun _ => makes_withResolved hk fun _ _ =>
    makes_bind (makes_replyStatus hk _ _) fun _ => makes_call (hk.log _ _ _ _)

theorem makes_sftpDoMkdir (hk : Housekeeping guar)
    (h : ∀ full, canWrite ctx.perm = true → Resolved rely ctx msg.filename false full →
      guar (.os (.mkdir full))) : Makes rely guar (sftpDoMkdir ctx msg) :=
  makes_requireWrite hk fun hwrite => makes_withResolved hk fun full hfull =>
    makes_callOnPath hk (makes_call (h full hwrite hfull))

theorem makes_sftpDoRmdir (hk : Housekeeping guar)
    (h : ∀ full, canWrite ctx.perm = true → Resolved rely ctx msg.filename true full →
      guar (.os (.rmdir full))) : Makes rely guar (sftpDoRmdir ctx msg) :=
  makes_requireWrite hk fun hwrite => makes_withResolved hk fun full hfull =>
    makes_callOnPath hk (makes_call (h full hwrite hfull))

theorem makes_sftpDoRemove (hk : Housekeeping guar)
    (h : ∀ full, canWrite ctx.perm = true → Resolved rely ctx msg.filename true full →
      guar (.os (.unlink full))) : Makes rely guar (sftpDoRemove ctx msg) :=
  makes_requireWrite hk fun hwrite => makes_withResolved hk fun full hfull =>
    makes_callOnPath hk (makes_call (h full hwrite hfull))

theorem makes_sftpDoRename (hk : Housekeeping guar)
    (h : ∀ src dst dstPath, canWrite ctx.perm = true → Resolved rely ctx msg.filename true src →
      (msg.submessage <|> msg.strData) = some dstPath → Resolved rely ctx dstPath false dst →
      guar (.os (.rename src dst))) : Makes rely guar (sftpDoRename ctx msg) := by
  refine makes_requireWrite hk fun hwrite => makes_withResolved hk fun src hsrc => ?_
  split
  · exact makes_replyStatus hk _ _
  · rename_i dstPath hdstPath
    refine makes_withResolved hk fun dst hdst => ?_
    refine makes_call_bind (h src dst dstPath hwrite hsrc hdstPath hdst) fun renamed _ => ?_
    cases renamed with
    | true => exact makes_bind (makes_replyStatus hk _ _) fun _ => makes_call (hk.log _ _ _ _)
    | false => exact makes_refuse hk _ _ _ _

theorem makes_realpathFull (hk : Housekeeping guar) (path : Text) :
    Makes rely guar (realpathFull ctx path) := by
  unfold realpathFull
  split
  · trivial
  · exact makes_call_bind hk.realpath fun _ _ => trivial

theorem makes_sftpDoRealpath (hk : Housekeeping guar)
    (hname : canRead ctx.perm = true → ∀ name attr, guar (.os (.reply (.name name attr)))) :
    Makes rely guar (sftpDoRealpath ctx msg) := by
  unfold sftpDoRealpath
  split
  · split
    · exact makes_replyStatus hk _ _
    · refine makes_bind (makes_realpathFull hk _) fun full => ?_
      refine makes_bind (makes_makeAttr hk _ _ _ _ _) fun attr => ?_
      cases attr with
      | none => exact makes_replyStatus hk _ _
      | some attr => exact makes_replyOrFail hk (hname ‹_› _ _)
  · exact makes_refuse hk _ _ _ _

/-! ## Handles -/

/-- The calls with which a handle is given out or its object given up. -/
structure HandleCalls (guar : Call → Prop) : Prop where
  alloc : ∀ info, guar (.handleAlloc info)
  handle : ∀ slot, guar (.os (.reply (.handle slot)))
  remove : ∀ pointer, guar (.handleRemove pointer)
  delete : ∀ kind info, guar (.delete kind info)

/-- The call that closes what the object holds. -/
def HandleData.closing : HandleData → Option Call
  | .file fd => fd.fp.map fun fp => .os (.fclose fp)
  | .directory dd => dd.dir.map fun dir => .os (.closedir dir)

theorem forall_closing (hfclose : ∀ fp, guar (.os (.fclose fp)))
    (hclosedir : ∀ dir, guar (.os (.closedir dir))) {data : HandleData} :
    ∀ c ∈ data.closing, guar c := by
  intro c hc
  cases data with
  | file fd =>
      obtain ⟨fp, -, rfl⟩ := Option.map_eq_some_iff.mp hc
      exact hfclose fp
  | directory dd =>
      obtain ⟨dir, -, rfl⟩ := Option.map_eq_some_iff.mp hc
      exact hclosedir dir

theorem makes_closeData {data : HandleData} (h : ∀ c ∈ data.closing, guar c) :
    Makes rely guar (closeData data) := by
  rcases data with ⟨fp, path⟩ | ⟨path, dir⟩
  · cases fp with
    | none => trivial
    | some fp => exact makes_call (h _ rfl)
  · cases dir with
    | none => trivial
    | some dir => exact makes_call (h _ rfl)

theorem makes_giveHandle (hk : Housekeeping guar) (hh : HandleCalls guar) (operation path : Text)
    (info : ObjectId) {data : HandleData} (hclose : ∀ c ∈ data.closing, guar c) :
    Makes rely guar (giveHandle ctx operation path info data) := by
  refine makes_call_bind (hh.alloc info) fun slot _ => ?_
  cases slot with
  | none =>
      exact makes_bind (makes_closeData hclose) fun _ =>
        makes_bind (makes_call (hh.delete _ _)) fun _ => makes_replyStatus hk _ _
  | some slot =>
      refine makes_call_bind (hh.handle slot) fun sent _ => ?_
      cases sent with
      | true => exact makes_call (hk.log _ _ _ _)
      | false =>
          exact makes_bind (makes_closeData hclose) fun _ =>
            makes_bind (makes_call (hh.remove _)) fun _ =>
            makes_bind (makes_call (hh.delete _ _)) fun _ => makes_call (hk.log _ _ _ _)

theorem makes_sftpDoOpen (hk : Housekeeping guar) (hh : HandleCalls guar)
    (hopen : ∀ full, openDenied ctx.perm msg.flags = false →
      Resolved rely ctx msg.filename (msg.flags &&& OpenFlags.creat == 0) full →
      guar (.os (.fopen full (sftpFlagsToMode msg.flags).1)) ∧
        ∀ id, rely (.os (.fopen full (sftpFlagsToMode msg.flags).1)) (some id) →
          guar (.new (.file ⟨some ⟨id, (sftpFlagsToMode msg.flags).1⟩, full⟩)) ∧
            guar (.os (.fclose ⟨id, (sftpFlagsToMode msg.flags).1⟩))) :
    Makes rely guar (sftpDoOpen ctx msg) := by
  unfold sftpDoOpen
  split
  · exact makes_refuse hk _ _ _ _
  · rename_i hdenied
    refine makes_withResolved hk fun full hfull => ?_
    obtain ⟨hfopen, hnew⟩ := hopen full (by simpa using hdenied) hfull
    refine makes_call_bind hfopen fun id hid => ?_
    cases id with
    | none => exact makes_refuse hk _ _ _ _
    | some id =>
        obtain ⟨hobject, hclose⟩ := hnew id hid
        exact makes_call_bind hobject fun info _ =>
          makes_giveHandle hk hh _ _ _ fun _ hc => Option.some.inj hc ▸ hclose

theorem makes_sftpDoOpendir (hk : Housekeeping guar) (hh : HandleCalls guar)
    (hopen : ∀ full, canRead ctx.perm = true → Resolved rely ctx msg.filename true full →
      guar (.os (.opendir full)) ∧ guar (.new (.directory ⟨full, none⟩)) ∧
        ∀ info dir, guar (.store info (.directory ⟨full, some dir⟩)) ∧
          guar (.os (.closedir dir))) :
    Makes rely guar (sftpDoOpendir ctx msg) := by
  unfold sftpDoOpendir
  split
  · refine makes_withResolved hk fun full hfull => ?_
    obtain ⟨hopendir, hnew, hstore⟩ := hopen full ‹_› hfull
    refine makes_call_bind hnew fun info _ => makes_call_bind hopendir fun dir _ => ?_
    cases dir with
    | none => exact makes_bind (makes_call (hh.delete _ _)) fun _ => makes_refuse hk _ _ _ _
    | some dir =>
        exact makes_call_bind (hstore info dir).1 fun _ _ =>
          makes_giveHandle hk hh _ _ _ fun _ hc => Option.some.inj hc ▸ (hstore info dir).2
  · exact makes_refuse hk _ _ _ _

theorem makes_sftpDoClose (hk : Housekeeping guar) (hremove : guar (.handleRemove .string))
    (hdelete : ∀ kind info, guar (.delete kind info)) (hkind : ∀ info, guar (.kindOf info))
    (hfile : ∀ info, guar (.file info)) (hdir : ∀ info, guar (.dir info))
    (hfclose : ∀ info fd fp, rely (.handle msg.handle) (some info) → rely (.file info) fd →
      fd.fp = some fp → guar (.os (.fclose fp)))
    (hclosedir : ∀ dir, guar (.os (.closedir dir))) : Makes rely guar (sftpDoClose ctx msg) := by
  refine makes_withHandle hk fun info hinfo => makes_bind ?_ fun _ => ?_
  · refine makes_call_bind (hkind info) fun kind _ => ?_
    cases kind with
    | file =>
        refine makes_call_bind (hfile info) fun fd hfd => ?_
        refine makes_bind (makes_closeData fun c hc => ?_) fun _ => makes_call (hdelete _ _)
        obtain ⟨fp, hfp, rfl⟩ := Option.map_eq_some_iff.mp hc
        exact hfclose info fd fp hinfo hfd hfp
    | directory =>
        refine makes_call_bind (hdir info) fun dd _ => ?_
        refine makes_bind (makes_closeData fun c hc => ?_) fun _ => makes_call (hdelete _ _)
        obtain ⟨dir, -, rfl⟩ := Option.map_eq_some_iff.mp hc
        exact hclosedir dir
  · exact makes_bind (makes_call hremove) fun _ =>
      makes_bind (makes_replyStatus hk _ _) fun _ => makes_call (hk.log _ _ _ _)

theorem makes_sftpDoFsetstat (hk : Housekeeping guar) :
    Makes rely guar (sftpDoFsetstat ctx msg) := by
  refine makes_withHandle hk fun info _ => ?_
  split <;> exact makes_replyStatus hk _ _

theorem makes_withFile (hk : Housekeeping guar) {next : FileData → Handler Unit}
    (hfile : ∀ info, guar (.file info))
    (hnext : ∀ info fd, rely (.handle msg.handle) (some info) → rely (.file info) fd →
      Makes rely guar (next fd)) : Makes rely guar (withFile msg next) :=
  makes_withHandle hk fun info hinfo =>
    makes_call_bind (hfile info) fun fd hfd => hnext info fd hinfo hfd

theorem makes_withDir (hk : Housekeeping guar) {next : DirData → Handler Unit}
    (hdir : ∀ info, guar (.dir info))
    (hnext : ∀ info dd, rely (.dir info) dd → Makes rely guar (next dd)) :
    Makes rely guar (withDir msg next) :=
  makes_withHandle hk fun info _ => makes_call_bind (hdir info) (hnext info)

theorem makes_seekFirst (hk : Housekeeping guar) {fd : FileData} {next : FilePtr → Handler Unit}
    (hseek : ∀ fp offset, fd.fp = some fp → guar (.os (.fseek fp offset)))
    (hnext : ∀ fp, fd.fp = some fp → Makes rely guar (next fp)) :
    Makes rely guar (seekFirst ctx msg fd next) := by
  obtain ⟨fp, path⟩ := fd
  cases fp with
  | none => exact makes_replyStatus hk _ _
  | some fp =>
      refine makes_call_bind (hseek fp _ rfl) fun moved _ => ?_
      cases moved with
      | true => exact hnext fp rfl
      | false => exact makes_replyStatus hk _ _

theorem makes_readFrom (hk : Housekeeping guar) {fp : FilePtr}
    (hfread : ∀ size, guar (.os (.fread fp size)))
    (hdata : ∀ size, ∀ buffer : (OsCall.fread fp size).Answer,
      buffer.val ≠ [] → guar (.os (.reply (.data buffer.val)))) :
    Makes rely guar (readFrom msg fp) := by
  refine makes_call_bind (hfread _) fun buffer _ => ?_
  split
  · exact makes_replyStatus hk _ _
  · exact makes_replyOrFail hk (hdata _ buffer ‹_›)

theorem makes_writeTo (hk : Housekeeping guar) {path : Text} {fp : FilePtr}
    (hwrite : ∀ data, guar (.os (.fwrite fp data))) (hflush : guar (.os (.fflush fp))) :
    Makes rely guar (writeTo ctx msg path fp) := by
  refine makes_call_bind (hwrite _) fun written _ => ?_
  split
  · exact makes_replyStatus hk _ _
  · exact makes_bind (makes_call hflush) fun _ =>
      makes_bind (makes_replyStatus hk _ _) fun _ => makes_call (hk.log _ _ _ _)

theorem makes_sftpDoWrite (hk : Housekeeping guar)
    (h : canWrite ctx.perm = true → Makes rely guar
      (withFile msg fun fd => seekFirst ctx msg fd (writeTo ctx msg fd.path))) :
    Makes rely guar (sftpDoWrite ctx msg) := by
  unfold sftpDoWrite
  split
  · exact h ‹_›
  · exact makes_replyStatus hk _ _

theorem makes_replyEntry (hk : Housekeeping guar) {dd : DirData}
    (hentries : guar (.os (.entries dd.dir))) (hset : ∀ rest, guar (.os (.setEntries dd.dir rest)))
    (hstat : ∀ entry, guar (.os (.stat (dd.path ++ '/' :: entry))))
    (hname : ∀ name attr, guar (.os (.reply (.name name attr)))) :
    Makes rely guar (replyEntry dd) := by
  refine makes_call_bind hentries fun entries _ => makes_bind (makes_call (hset _)) fun _ => ?_
  cases (readEntry entries).1 with
  | none => exact makes_replyStatus hk _ _
  | some entry =>
      refine makes_bind (makes_statToAttr hk (hstat entry) _) fun attr => ?_
      cases attr with
      | none =>
          exact makes_bind (makes_makeAttr hk _ _ _ _ _) fun attr =>
            makes_replyOrFail hk (hname _ _)
      | some attr => exact makes_replyOrFail hk (hname _ _)

theorem makes_replyFstat (hk : Housekeeping guar) {fd : FileData}
    (hstat : guar (.os (.stat fd.path))) (hattr : ∀ attr, guar (.os (.reply (.attr attr)))) :
    Makes rely guar (replyFstat fd) := by
  refine makes_bind (makes_statToAttr hk hstat _) fun attr => ?_
  cases attr with
  | none => exact makes_replyStatus hk _ _
  | some attr => exact makes_replyOrFail hk (hattr attr)

end Rules

/-! ## Resolving a path, call by call -/

section Resolving

variable {σ : Type}

/-- What `resolve_path` answers, with the state of the system afterwards. -/
def resolvedIn (env : Environment σ) (ctx : SftpContext) (e : σ) (path : Text) (mustExist : Bool) :
    Option (σ × Text) :=
  let (realpath, e) := env.answer e .realpath
  let full := resolvePath realpath ctx.root path mustExist
  if full = [] then none else some (e, full)

variable {env : Environment σ} {ctx : SftpContext} {w : World σ}
  {operation path missing : Text} {mustExist : Bool} {code : StatusCode}
  {next : Text → Handler Unit} {e : σ} {full : Text}

theorem execute_withResolved
    (h : resolvedIn env ctx w.env path mustExist = some (e, full)) :
    (withResolved ctx operation path mustExist missing code next).execute (perform env) w =
      ((next full).execute (perform env) { w with env := e }).after
        [⟨.os .realpath, (env.answer w.env .realpath).1⟩] := by
  unfold resolvedIn at h
  dsimp only at h
  split at h
  · cases h
  · next hfull =>
      cases h
      simp [withResolved, SftpContext.resolvePath, execute_call, request, hfull]

theorem execute_withResolved_none
    (h : resolvedIn env ctx w.env path mustExist = none) :
    (withResolved ctx operation path mustExist missing code next).execute (perform env) w =
      ((refuse ctx operation path missing code).execute (perform env)
        { w with env := (env.answer w.env .realpath).2 }).after
        [⟨.os .realpath, (env.answer w.env .realpath).1⟩] := by
  unfold resolvedIn at h
  dsimp only at h
  split at h
  · next hfull => simp [withResolved, SftpContext.resolvePath, execute_call, request, hfull]
  · cases h

end Resolving

end MockServices.Sftp
