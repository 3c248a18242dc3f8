import MockServices.Foundations.Run
import MockServices.Sftp.World

/-!
# The SFTP message handlers

Every handler is a program over the calls of the session's world, in the
order of the source. `processSftp` picks the handler of a message; a
session serves one message after the other until a fault.
-/

namespace MockServices.Sftp

open Foundations

/-- The messages that `process_sftp` tells apart. -/
inductive MessageType where
  | open
  | close
  | read
  | write
  | opendir
  | readdir
  | stat
  | lstat
  | fstat
  | setstat
  | fsetstat
  | mkdir
  | rmdir
  | remove
  | rename
  | realpath
  | other
  deriving DecidableEq

/-- The fields of a client message that some handler reads. -/
structure SftpClientMessage where
  type : MessageType
  filename : Text := []
  flags : OpenFlags := 0
  handle : Option Slot := none
  offset : BitVec 64 := 0
  len : BitVec 32 := 0
  data : Bytes := []
  submessage : Option Text := none
  strData : Option Text := none

/-- `longWidth` is the width of the platform's `long`. -/
structure SftpContext where
  username : Text
  root : Text
  perm : SftpPermission
  longWidth : ℕ := 64

abbrev Handler (α : Type) := Program Call Call.Answer α

abbrev call (c : Call) : Handler c.Answer := Program.request c

abbrev os (c : OsCall) : Handler c.Answer := call (.os c)

/-! ## Replies, guards and attributes -/

def reply (r : Reply) : Handler Bool := os (.reply r)

def replyStatus (code : StatusCode) (message : Option Text := none) : Handler Unit := do
  let _ ← reply (.status code message)

/-- A reply that is followed by a failure status when it cannot be sent. -/
def replyOrFail (r : Reply) : Handler Unit := do
  if ← reply r then pure () else replyStatus .failure

def SftpContext.logActivity (ctx : SftpContext) (operation path result : Text) : Handler Unit :=
  call (.logActivity ctx.username operation path result)

def SftpContext.resolvePath (ctx : SftpContext) (path : Text) (mustExist : Bool) :
    Handler Text := do
  let realpath ← os .realpath
  pure (Sftp.resolvePath realpath ctx.root path mustExist)

def canRead (permission : SftpPermission) : Bool := permission &&& SftpPermission.read != 0

def canWrite (permission : SftpPermission) : Bool := permission &&& SftpPermission.write != 0

/-- Log the result, answer the status and return. -/
def refuse (ctx : SftpContext) (operation path result : Text) (code : StatusCode) :
    Handler Unit := do
  ctx.logActivity operation path result
  replyStatus code

def requireWrite (ctx : SftpContext) (operation path : Text) (next : Handler Unit) : Handler Unit :=
  if canWrite ctx.perm then next else refuse ctx operation path "DENIED" .permissionDenied

def withResolved (ctx : SftpContext) (operation path : Text) (mustExist : Bool) (missing : Text)
    (code : StatusCode) (next : Text → Handler Unit) : Handler Unit := do
  let full ← ctx.resolvePath path mustExist
  if full = [] then refuse ctx operation path missing code else next full

/-- `sftp_handle` on the message's handle string. -/
def withHandle (msg : SftpClientMessage) (next : ObjectId → Handler Unit) : Handler Unit := do
  match ← call (.handle msg.handle) with
  | none => replyStatus .invalidHandle
  | some info => next info

def sIfdir : BitVec 32 := 0x4000
def sIfreg : BitVec 32 := 0x8000

def makeAttr (name : Text) (size : BitVec 64) (perm : BitVec 32) (mtime atime : ℤ) :
    Handler (Option SftpAttributes) := do
  if ← os .calloc then
    pure (some
      { name, size
        permissions := perm
        atime := BitVec.ofInt 32 atime
        mtime := BitVec.ofInt 32 mtime
        flags := 0x0d
        type := if perm &&& sIfdir ≠ 0 then .directory
          else if perm &&& sIfreg ≠ 0 then .regular else .unknown })
  else pure none

def statToAttr (fullPath displayName : Text) : Handler (Option SftpAttributes) := do
  match ← os (.stat fullPath) with
  | none => pure none
  | some st => makeAttr displayName st.size st.mode st.mtime st.atime

/-- What follows the last `/`. -/
def displayName (path : Text) : Text := (path.reverse.takeWhile (· ≠ '/')).reverse

/-- The mode for `fopen`, and `*trunc`. -/
def sftpFlagsToMode (flags : OpenFlags) : OpenMode × Bool :=
  let rw := flags &&& (OpenFlags.read ||| OpenFlags.write)
  if rw = OpenFlags.read then (.rb, false)
  else if rw = OpenFlags.write then
    if flags &&& OpenFlags.append ≠ 0 then (.ab, false)
    else if flags &&& OpenFlags.trunc ≠ 0 then (.wb, true)
    else if flags &&& OpenFlags.creat ≠ 0 then (.wb, false)
    else (.rbPlus, false)
  else if rw = OpenFlags.read ||| OpenFlags.write then
    if flags &&& OpenFlags.append ≠ 0 then (.abPlus, false)
    else if flags &&& OpenFlags.trunc ≠ 0 then (.wbPlus, true)
    else (.rbPlus, false)
  else (.rb, false)

/-! ## Handles -/

/-- `fclose` or `closedir`, unless there is nothing to close. -/
def closeData : HandleData → Handler Unit
  | .file fd =>
      match fd.fp with
      | none => pure ()
      | some fp => os (.fclose fp)
  | .directory dd =>
      match dd.dir with
      | none => pure ()
      | some dir => os (.closedir dir)

/-- The common end of OPEN and OPENDIR. The handle string is freed before
`sftp_handle_remove` gets it. -/
def giveHandle (ctx : SftpContext) (operation path : Text) (info : ObjectId) (data : HandleData) :
    Handler Unit := do
  match ← call (.handleAlloc info) with
  | none =>
      closeData data
      call (.delete data.kind info)
      replyStatus .failure
  | some slot =>
      if ← reply (.handle slot) then
        ctx.logActivity operation path "OK"
      else
        closeData data
        call (.handleRemove .string)
        call (.delete data.kind info)
        ctx.logActivity operation path "OK"

/-- The permission checks of OPEN, in flags. -/
def openDenied (perm : SftpPermission) (flags : OpenFlags) : Bool :=
  (flags &&& (OpenFlags.write ||| OpenFlags.creat ||| OpenFlags.trunc) != 0 && !canWrite perm) ||
    (flags &&& OpenFlags.read != 0 && !canRead perm)

def sftpDoOpen (ctx : SftpContext) (msg : SftpClientMessage) : Handler Unit :=
  if openDenied ctx.perm msg.flags then refuse ctx "OPEN" msg.filename "DENIED" .permissionDenied
  else
    withResolved ctx "OPEN" msg.filename (msg.flags &&& OpenFlags.creat == 0) "NO_SUCH_FILE"
      .noSuchFile fun full => do
        let mode := (sftpFlagsToMode msg.flags).1
        match ← os (.fopen full mode) with
        | none => refuse ctx "OPEN" msg.filename "FAILURE" .failure
        | some id =>
            let data : HandleData := .file ⟨some ⟨id, mode⟩, full⟩
            let info ← call (.new data)
            giveHandle ctx "OPEN" msg.filename info data

/-- Close and delete the object as its kind tag says. -/
def releaseData (info : ObjectId) : Handler Unit := do
  match ← call (.kindOf info) with
  | .file =>
      let fd ← call (.file info)
      closeData (.file fd)
      call (.delete .file info)
  | .directory =>
      let dd ← call (.dir info)
      closeData (.directory dd)
      call (.delete .directory info)

def sftpDoClose (ctx : SftpContext) (msg : SftpClientMessage) : Handler Unit :=
  withHandle msg fun info => do
    releaseData info
    call (.handleRemove .string)
    replyStatus .ok
    ctx.logActivity "CLOSE" "" "OK"

/-- The object behind the handle, cast to `FileData`. -/
def withFile (msg : SftpClientMessage) (next : FileData → Handler Unit) : Handler Unit :=
  withHandle msg fun info => do next (← call (.file info))

/-- The object behind the handle, cast to `DirData`. -/
def withDir (msg : SftpClientMessage) (next : DirData → Handler Unit) : Handler Unit :=
  withHandle msg fun info => do next (← call (.dir info))

/-- What READ and WRITE do before they transfer. -/
def seekFirst (ctx : SftpContext) (msg : SftpClientMessage) (fd : FileData)
    (next : FilePtr → Handler Unit) : Handler Unit := do
  match fd.fp with
  | none => replyStatus .failure
  | some fp =>
      if ← os (.fseek fp (msg.offset.setWidth ctx.longWidth).toInt) then next fp
      else replyStatus .failure

def readFrom (msg : SftpClientMessage) (fp : FilePtr) : Handler Unit := do
  let buffer ← os (.fread fp (min msg.len.toNat 65536))
  if buffer.val = [] then replyStatus .eof else replyOrFail (.data buffer.val)

def sftpDoRead (ctx : SftpContext) (msg : SftpClientMessage) : Handler Unit :=
  withFile msg fun fd => seekFirst ctx msg fd (readFrom msg)

def writeTo (ctx : SftpContext) (msg : SftpClientMessage) (path : Text) (fp : FilePtr) :
    Handler Unit := do
  let written ← os (.fwrite fp msg.data)
  if written.val ≠ msg.data.length then replyStatus .failure
  else
    os (.fflush fp)
    replyStatus .ok
    ctx.logActivity "WRITE" path "OK"

def sftpDoWrite (ctx : SftpContext) (msg : SftpClientMessage) : Handler Unit :=
  if canWrite ctx.perm then
    withFile msg fun fd => seekFirst ctx msg fd (writeTo ctx msg fd.path)
  else replyStatus .permissionDenied

def sftpDoOpendir (ctx : SftpContext) (msg : SftpClientMessage) : Handler Unit :=
  if canRead ctx.perm then
    withResolved ctx "OPENDIR" msg.filename true "NO_SUCH_FILE" .noSuchFile fun full => do
      let info ← call (.new (.directory ⟨full, none⟩))
      match ← os (.opendir full) with
      | none =>
          call (.delete .directory info)
          refuse ctx "OPENDIR" msg.filename "FAILURE" .failure
      | some dir =>
          let data : HandleData := .directory ⟨full, some dir⟩
          call (.store info data)
          giveHandle ctx "OPENDIR" msg.filename info data
  else refuse ctx "OPENDIR" msg.filename "DENIED" .permissionDenied

/-- The `readdir` loop: the next entry other than `.` and `..`, and the
entries after it. -/
def readEntry : List Text → Option Text × List Text
  | [] => (none, [])
  | entry :: rest =>
      if entry = ['.'] ∨ entry = ['.', '.'] then readEntry rest else (some entry, rest)

def replyEntry (dd : DirData) : Handler Unit := do
  let entries ← os (.entries dd.dir)
  os (.setEntries dd.dir (readEntry entries).2)
  match (readEntry entries).1 with
  | none => replyStatus .eof
  | some entry =>
      match ← statToAttr (dd.path ++ '/' :: entry) entry with
      | some attr => replyOrFail (.name entry (some attr))
      | none =>
          let attr ← makeAttr entry 0 (sIfreg ||| 0o644) 0 0
          replyOrFail (.name entry attr)

def sftpDoReaddir (msg : SftpClientMessage) : Handler Unit := withDir msg replyEntry

def sftpDoStat (ctx : SftpContext) (msg : SftpClientMessage) : Handler Unit :=
  withResolved ctx "STAT" msg.filename true "NO_SUCH_FILE" .noSuchFile fun full => do
    match ← statToAttr full (displayName msg.filename) with
    | none => replyStatus .noSuchFile
    | some attr => replyOrFail (.attr attr)

def replyFstat (fd : FileData) : Handler Unit := do
  match ← statToAttr fd.path (displayName fd.path) with
  | none => replyStatus .failure
  | some attr => replyOrFail (.attr attr)

def sftpDoFstat (msg : SftpClientMessage) : Handler Unit := withFile msg replyFstat

def sftpDoFsetstat (ctx : SftpContext) (msg : SftpClientMessage) : Handler Unit :=
  withHandle msg fun _ =>
    if canWrite ctx.perm then replyStatus .ok else replyStatus .permissionDenied

/-! ## Paths -/

/-- The common end of MKDIR, RMDIR and REMOVE: one call and its result. -/
def callOnPath (ctx : SftpContext) (operation path : Text) (call : Handler Bool) :
    Handler Unit := do
  if ← call then
    replyStatus .ok
    ctx.logActivity operation path "OK"
  else refuse ctx operation path "FAILURE" .failure

def sftpDoSetstat (ctx : SftpContext) (msg : SftpClientMessage) : Handler Unit :=
  requireWrite ctx "SETSTAT" msg.filename <|
    withResolved ctx "SETSTAT" msg.filename true "NO_SUCH_FILE" .noSuchFile fun _ => do
      replyStatus .ok
      ctx.logActivity "SETSTAT" msg.filename "OK"

def sftpDoMkdir (ctx : SftpContext) (msg : SftpClientMessage) : Handler Unit :=
  requireWrite ctx "MKDIR" msg.filename <|
    withResolved ctx "MKDIR" msg.filename false "NO_SUCH_PATH" .noSuchPath fun full =>
      callOnPath ctx "MKDIR" msg.filename (os (.mkdir full))

def sftpDoRmdir (ctx : SftpContext) (msg : SftpClientMessage) : Handler Unit :=
  requireWrite ctx "RMDIR" msg.filename <|
    withResolved ctx "RMDIR" msg.filename true "NO_SUCH_FILE" .noSuchFile fun full =>
      callOnPath ctx "RMDIR" msg.filename (os (.rmdir full))

def sftpDoRemove (ctx : SftpContext) (msg : SftpClientMessage) : Handler Unit :=
  requireWrite ctx "REMOVE" msg.filename <|
    withResolved ctx "REMOVE" msg.filename true "NO_SUCH_FILE" .noSuchFile fun full =>
      callOnPath ctx "REMOVE" msg.filename (os (.unlink full))

def sftpDoRename (ctx : SftpContext) (msg : SftpClientMessage) : Handler Unit :=
  requireWrite ctx "RENAME" msg.filename <|
    withResolved ctx "RENAME" msg.filename true "NO_SUCH_FILE" .noSuchFile fun fullSrc =>
      match msg.submessage <|> msg.strData with
      | none => replyStatus .failure (some "No destination path")
      | some dstPath =>
          withResolved ctx "RENAME" dstPath false "NO_SUCH_PATH" .noSuchPath fun fullDst => do
            if ← os (.rename fullSrc fullDst) then
              replyStatus .ok
              ctx.logActivity "RENAME" (msg.filename ++ txt " -> " ++ dstPath) "OK"
            else refuse ctx "RENAME" msg.filename "FAILURE" .failure

/-- Drop every `/` that follows another one. -/
def cleanedSlashes : Text → Text
  | '/' :: '/' :: rest => cleanedSlashes ('/' :: rest)
  | ch :: rest => ch :: cleanedSlashes rest
  | [] => []

/-- The name under which the client sees a path below its root. -/
def displayPath (root full : Text) : Text :=
  let nroot := normalizeSeparators root
  let nfull := normalizeSeparators full
  if hasCaseInsensitivePrefix nfull nroot then
    '/' :: (nfull.drop nroot.length).dropWhile fun ch => ch = '/' ∨ ch = '\\'
  else full

/-- The text that REALPATH starts from. -/
def realpathFull (ctx : SftpContext) (path : Text) : Handler Text :=
  if path = ['/'] ∨ path = ['.'] then pure ctx.root
  else do
    let full ← ctx.resolvePath path false
    pure (if full = [] then cleanedSlashes (normalizeSeparators ctx.root ++ '/' :: path) else full)

def sftpDoRealpath (ctx : SftpContext) (msg : SftpClientMessage) : Handler Unit :=
  if canRead ctx.perm then
    if msg.filename = [] then replyStatus .failure
    else do
      let full ← realpathFull ctx msg.filename
      let display := displayPath ctx.root full
      match ← makeAttr display 0 (sIfdir ||| 0o755) 0 0 with
      | none => replyStatus .failure
      | some attr => replyOrFail (.name display (some attr))
  else refuse ctx "REALPATH" msg.filename "DENIED" .permissionDenied

/-! ## Sessions -/

def processSftp (ctx : SftpContext) (msg : SftpClientMessage) : Handler Unit :=
  match msg.type with
  | .open => sftpDoOpen ctx msg
  | .close => sftpDoClose ctx msg
  | .read => sftpDoRead ctx msg
  | .write => sftpDoWrite ctx msg
  | .opendir => sftpDoOpendir ctx msg
  | .readdir => sftpDoReaddir msg
  | .stat | .lstat => sftpDoStat ctx msg
  | .fstat => sftpDoFstat msg
  | .setstat => sftpDoSetstat ctx msg
  | .fsetstat => sftpDoFsetstat ctx msg
  | .mkdir => sftpDoMkdir ctx msg
  | .rmdir => sftpDoRmdir ctx msg
  | .remove => sftpDoRemove ctx msg
  | .rename => sftpDoRename ctx msg
  | .realpath => sftpDoRealpath ctx msg
  | .other => replyStatus .opUnsupported

/-- A message and the calls that were made for it. -/
structure Exchange where
  msg : SftpClientMessage
  events : List (Event Call.Answer)

def replies (events : List (Event Call.Answer)) : List Reply :=
  events.filterMap fun e =>
    match e.1 with
    | .os (.reply r) => some r
    | _ => none

theorem mem_replies {r : Reply} {events : List (Event Call.Answer)} :
    r ∈ replies events ↔ ∃ sent, ⟨.os (.reply r), sent⟩ ∈ events := by
  constructor
  · intro h
    obtain ⟨⟨c, answer⟩, he, hr⟩ := List.mem_filterMap.mp h
    simp only at hr
    split at hr
    · obtain rfl := Option.some.inj hr
      exact ⟨answer, he⟩
    · simp at hr
  · rintro ⟨sent, he⟩
    exact List.mem_filterMap.mpr ⟨_, he, rfl⟩

@[simp] theorem replies_append (xs ys : List (Event Call.Answer)) :
    replies (xs ++ ys) = replies xs ++ replies ys := List.filterMap_append

variable {σ : Type}

structure Session (σ : Type) where
  world : World σ
  served : List Exchange := []
  fault : Option Fault := none

def Session.start (env : σ) : Session σ where
  world := ⟨env, fun _ => none, []⟩

/-- What serving the message does in the session's world. -/
def Session.serve (env : Environment σ) (ctx : SftpContext) (s : Session σ)
    (msg : SftpClientMessage) : Execution Call.Answer (World σ) Fault Unit :=
  (processSftp ctx msg).execute (perform env) s.world

/-- Nothing is said about what follows a fault. -/
def step (env : Environment σ) (ctx : SftpContext) (s : Session σ) (msg : SftpClientMessage) :
    Option (Session σ) :=
  if s.fault = none then
    let x := s.serve env ctx msg
    some ⟨x.world, s.served ++ [⟨msg, x.events⟩], x.error?⟩
  else none

theorem step_eq_some_iff {env : Environment σ} {ctx : SftpContext} {s t : Session σ}
    {msg : SftpClientMessage} :
    step env ctx s msg = some t ↔ s.fault = none ∧
      t = ⟨(s.serve env ctx msg).world, s.served ++ [⟨msg, (s.serve env ctx msg).events⟩],
        (s.serve env ctx msg).error?⟩ := by
  unfold step
  split
  · simp_all [eq_comm]
  · simp_all

/-! ## A system in which every call succeeds -/

def grantingAnswer (realpath : Realpath) (content : Bytes) (listing : List Text) :
    (call : OsCall) → call.Answer
  | .realpath => realpath
  | .fopen _ _ => some 0
  | .fseek _ _ => true
  | .fread fp size =>
      if h : fp.mode.readable = true then ⟨content.take size, by simp [h]⟩
      else ⟨[], by simp⟩
  | .fwrite fp data =>
      if h : fp.mode.writable = true then ⟨data.length, by simp [h]⟩ else ⟨0, by simp⟩
  | .opendir _ => some 0
  | .entries _ => listing
  | .stat _ => some ⟨0, sIfreg, 0, 0⟩
  | .mkdir _ | .rmdir _ | .unlink _ | .rename _ _ => true
  | .calloc => true
  | .reply _ => true
  | .fflush _ | .fclose _ | .setEntries _ _ | .closedir _ => ()

def granting (realpath : Realpath) (content : Bytes) (listing : List Text) : Environment Unit where
  answer _ call := (grantingAnswer realpath content listing call, ())
  slots := SlotChoice.first 256 ObjectId

end MockServices.Sftp
