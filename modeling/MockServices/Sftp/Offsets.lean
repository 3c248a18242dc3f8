import MockServices.Sftp.HostFile

/-!
# The offsets of READ and WRITE

The handlers cast the 64-bit offset of a message to `long` before they
move the position of the stream. Where `long` has 32 bits, an offset from
`2^32` on may become a small one, and the operation acts there. A READ
that fails before its first byte passes for the end of the file, and a
WRITE whose data does not get out of the buffer passes for done. A READ
gives what the stream has read ahead, though another handle may have
written to the file since.
-/

namespace MockServices.Sftp

open Foundations Foundations.Program

inductive Platform where
  | linuxX64
  | windowsI686

/-- The bits of `long`. -/
def Platform.longWidth : Platform → ℕ
  | linuxX64 => 64
  | windowsI686 => 32

/-- READ fails, or reports the end of the file where it is, or gives what
the file has from the offset on. -/
def ReadAnswer (content : Bytes) (offset len : ℕ) : Reply → Prop
  | .status .failure _ => True
  | .status .eof _ => content.length ≤ offset ∨ len = 0
  | .data b => b ≠ [] ∧ b.length ≤ min len 65536 ∧ b <+: content.drop offset
  | _ => False

/-- READ and WRITE with the offset act on the file at the offset, READ
whenever the stream is known to be good for it. -/
structure ActsAt (platform : Platform) (host : Host) (known : HostFile → FilePtr → Prop)
    (offset : BitVec 64) : Prop where
  read : ∀ (ctx : SftpContext) (s : Session HostFile) (msg : SftpClientMessage) (fp : FilePtr),
    ctx.longWidth = platform.longWidth → msg.type = .read → msg.offset = offset →
      s.world.HasOpen msg fp → fp.mode.readable = true → fp.mode.appends = false →
        known s.world.env fp →
          ∃ r, replies (s.serve host.env ctx msg).events = [r] ∧
            ReadAnswer (s.world.env.bytesOf fp) offset.toNat msg.len.toNat r
  write : ∀ (ctx : SftpContext) (s : Session HostFile) (msg : SftpClientMessage) (fp : FilePtr),
    ctx.longWidth = platform.longWidth → msg.type = .write → msg.offset = offset →
      s.world.HasOpen msg fp → fp.mode.writable = true → fp.mode.appends = false →
        .status .ok none ∈ replies (s.serve host.env ctx msg).events →
          (s.serve host.env ctx msg).world.env.content =
            overwrite (s.world.env.bytesOf fp) offset.toNat msg.data

/-- The client's loop: READ from where the last one ended, until the end
of the file. -/
def download {σ : Type} (env : Environment σ) (ctx : SftpContext) (slot : Slot) (len : BitVec 32) :
    ℕ → Session σ → ℕ → Bytes → Option Bytes
  | 0, _, _, _ => none
  | fuel + 1, s, offset, got =>
      let msg : SftpClientMessage :=
        { type := .read, handle := some slot, offset := BitVec.ofNat 64 offset, len }
      (step env ctx s msg).bind fun t =>
        match replies (s.serve env ctx msg).events with
        | [.data b] => download env ctx slot len fuel t (offset + b.length) (got ++ b)
        | [.status .eof _] => some got
        | _ => none

/-- Whatever the length of the steps, the loop comes to its end with the
content of the file. -/
def Reproduces (platform : Platform) (host : Host) (content : Bytes) : Prop :=
  ∀ (ctx : SftpContext) (s : Session HostFile) (slot : Slot) (len : BitVec 32) (fp : FilePtr),
    ctx.longWidth = platform.longWidth → s.fault = none →
      s.world.HasOpen { type := .read, handle := some slot } fp →
        fp.mode.readable = true → fp.mode.appends = false → s.world.env.Fresh fp → len ≠ 0 →
          s.world.env.bytesOf fp = content →
            ∃ fuel, download host.env ctx slot len fuel s 0 [] = some content

/-! ## One message -/

/-- The offset as `fseek` gets it. -/
def SftpContext.long (ctx : SftpContext) (offset : BitVec 64) : ℤ :=
  (offset.setWidth ctx.longWidth).toInt

/-- The position can be moved to the offset. -/
def Host.Reaches (host : Host) (ctx : SftpContext) (offset : BitVec 64) : Prop :=
  host.seeks = true ∧ 0 ≤ ctx.long offset

section Message

variable {host : Host} {ctx : SftpContext} {s : Session HostFile}
  {msg : SftpClientMessage} {fp : FilePtr}

theorem execute_withFile {σ : Type} {env : Environment σ} {w : World σ} {info : ObjectId}
    {fd : FileData} (hnamed : w.named msg = some info) (hlive : w.live info = some (.file fd))
    (next : FileData → Handler Unit) :
    (withFile msg next).execute (perform env) w =
      ((next fd).execute (perform env) w).after
        [⟨.handle msg.handle, some info⟩, ⟨.file info, fd⟩] := by
  have hfile : perform env w (.file info) = .ok (fd, w) :=
    perform_file_eq_ok_iff.mpr ⟨hlive, rfl⟩
  unfold withFile
  rw [execute_withHandle_some hnamed, request_bind, execute_call_ok _ hfile,
    Execution.after_after]
  rfl

theorem execute_seekFirst (w : World HostFile) (path : Text)
    (next : FilePtr → Handler Unit) (h : host.Reaches ctx msg.offset) :
    (seekFirst ctx msg ⟨some fp, path⟩ next).execute (perform host.env) w =
      ((next fp).execute (perform host.env)
        { w with env := host.seek fp (ctx.long msg.offset) w.env }).after
          [⟨.os (.fseek fp (ctx.long msg.offset)), true⟩] := by
  have hseek : host.env.answer w.env (.fseek fp (ctx.long msg.offset)) =
      (true, host.seek fp (ctx.long msg.offset) w.env) := if_pos h
  have hperform : perform host.env w (.os (.fseek fp (ctx.long msg.offset))) =
      .ok (true, { w with env := host.seek fp (ctx.long msg.offset) w.env }) := by
    rw [perform_os, hseek]
  exact execute_call_ok _ hperform

theorem execute_seekFirst_failed (w : World HostFile) (path : Text)
    (next : FilePtr → Handler Unit) (h : ¬ host.Reaches ctx msg.offset) :
    (seekFirst ctx msg ⟨some fp, path⟩ next).execute (perform host.env) w =
      ⟨[⟨.os (.fseek fp (ctx.long msg.offset)), false⟩,
        ⟨.os (.reply (.status .failure none)), true⟩], w, .ok ()⟩ := by
  have hseek : host.env.answer w.env (.fseek fp (ctx.long msg.offset)) = (false, w.env) := if_neg h
  have hperform : perform host.env w (.os (.fseek fp (ctx.long msg.offset))) = .ok (false, w) := by
    rw [perform_os, hseek]
  exact execute_call_ok _ hperform

/-- The bytes that READ gets. -/
def Host.reads (host : Host) (msg : SftpClientMessage) : ℕ :=
  transferred host.readError (min msg.len.toNat 65536)

/-- What the file has where READ has moved to. -/
def Host.found (host : Host) (ctx : SftpContext) (msg : SftpClientMessage) (content : Bytes) :
    Bytes :=
  (content.drop (ctx.long msg.offset).toNat).take (host.reads msg)

theorem found_unread (h : host.readError = some 0) (ctx : SftpContext) (msg : SftpClientMessage)
    (content : Bytes) : host.found ctx msg content = [] := by
  rw [Host.found, Host.reads, h]
  exact List.take_eq_nil_iff.mpr (Or.inl (Nat.min_zero _))

theorem serve_read (htype : msg.type = .read) (hopen : s.world.HasOpen msg fp)
    (hmode : fp.mode.readable = true) (h : host.Reaches ctx msg.offset) :
    let moved := host.seek fp (ctx.long msg.offset) s.world.env
    let got := moved.next fp (host.reads msg)
    replies (s.serve host.env ctx msg).events =
        [if got = [] then .status .eof none else .data got] ∧
      (s.serve host.env ctx msg).error? = none ∧
        (s.serve host.env ctx msg).world =
          { s.world with env := moved.advance fp host.window (host.reads msg) } := by
  obtain ⟨info, path, hnamed, hlive⟩ := hopen
  have hread : host.env.answer (host.seek fp (ctx.long msg.offset) s.world.env)
      (.fread fp (min msg.len.toNat 65536)) =
        (⟨(host.seek fp (ctx.long msg.offset) s.world.env).next fp (host.reads msg),
          (List.length_take_le _ _).trans (transferred_le _ _), by simp [hmode]⟩,
            (host.seek fp (ctx.long msg.offset) s.world.env).advance fp host.window
              (host.reads msg)) := dif_pos hmode
  unfold Session.serve processSftp
  rw [htype]
  simp only [sftpDoRead, execute_withFile hnamed hlive, execute_seekFirst _ _ _ h, readFrom,
    request_bind, execute_call_ok _ (perform_os _), hread]
  split
  · exact ⟨rfl, rfl, rfl⟩
  · exact ⟨rfl, rfl, rfl⟩

/-- A fresh stream gives what the file has. -/
theorem next_eq_found (msg : SftpClientMessage)
    (h : (host.seek fp (ctx.long msg.offset) s.world.env).Fresh fp) :
    (host.seek fp (ctx.long msg.offset) s.world.env).next fp (host.reads msg) =
      host.found ctx msg (s.world.env.bytesOf fp) := BufferedFile.next_seek h

theorem serve_failed (htype : msg.type = .read ∨ msg.type = .write ∧ canWrite ctx.perm = true)
    (hopen : s.world.HasOpen msg fp) (h : ¬ host.Reaches ctx msg.offset) :
    replies (s.serve host.env ctx msg).events = [.status .failure none] := by
  obtain ⟨info, path, hnamed, hlive⟩ := hopen
  unfold Session.serve processSftp
  obtain htype | ⟨htype, hperm⟩ := htype
  · simp only [htype, sftpDoRead, execute_withFile hnamed hlive, execute_seekFirst_failed _ _ _ h]
    rfl
  · simp only [htype, sftpDoWrite, if_pos hperm, execute_withFile hnamed hlive,
      execute_seekFirst_failed _ _ _ h]
    rfl

theorem Host.answer_fwrite (host : Host) (hmode : fp.mode.writable = true) (data : Bytes)
    (file : HostFile) :
    host.env.answer file (.fwrite fp data) =
      (⟨transferred host.writeError data.length, transferred_le _ _, by simp [hmode]⟩,
        file.write fp (data.take (transferred host.writeError data.length))) := dif_pos hmode

theorem serve_write (htype : msg.type = .write) (hperm : canWrite ctx.perm = true)
    (hopen : s.world.HasOpen msg fp) (hmode : fp.mode.writable = true)
    (h : host.Reaches ctx msg.offset)
    (hall : transferred host.writeError msg.data.length = msg.data.length) :
    replies (s.serve host.env ctx msg).events = [.status .ok none] ∧
      (s.serve host.env ctx msg).world.env =
        host.settle fp ((host.seek fp (ctx.long msg.offset) s.world.env).write fp msg.data) := by
  obtain ⟨info, path, hnamed, hlive⟩ := hopen
  unfold Session.serve processSftp
  rw [htype]
  simp only [sftpDoWrite, if_pos hperm, execute_withFile hnamed hlive, execute_seekFirst _ _ _ h,
    writeTo, request_bind, execute_call_ok _ (perform_os _), host.answer_fwrite hmode, hall,
    List.take_length, ne_eq, not_true_eq_false, if_false]
  exact ⟨rfl, rfl⟩

theorem serve_write_short (htype : msg.type = .write) (hperm : canWrite ctx.perm = true)
    (hopen : s.world.HasOpen msg fp) (hmode : fp.mode.writable = true)
    (h : host.Reaches ctx msg.offset)
    (hshort : transferred host.writeError msg.data.length ≠ msg.data.length) :
    replies (s.serve host.env ctx msg).events = [.status .failure none] := by
  obtain ⟨info, path, hnamed, hlive⟩ := hopen
  unfold Session.serve processSftp
  rw [htype]
  simp only [sftpDoWrite, if_pos hperm, execute_withFile hnamed hlive, execute_seekFirst _ _ _ h,
    writeTo, request_bind, execute_call_ok _ (perform_os _), host.answer_fwrite hmode,
    if_pos hshort]
  rfl

theorem serve_denied (htype : msg.type = .write) (hperm : canWrite ctx.perm = false) :
    replies (s.serve host.env ctx msg).events = [.status .permissionDenied none] := by
  unfold Session.serve processSftp
  simp only [htype, sftpDoWrite, hperm]
  rfl

end Message

/-! ## The offset after the cast -/

section Cast

variable {platform : Platform} {ctx : SftpContext} {host : Host} {offset : BitVec 64}

theorem Platform.two_mul_half (platform : Platform) :
    2 * 2 ^ (platform.longWidth - 1) = 2 ^ platform.longWidth := by
  cases platform <;> rfl

theorem long_eq (hctx : ctx.longWidth = platform.longWidth) (offset : BitVec 64) :
    ctx.long offset = if offset.toNat % 2 ^ platform.longWidth < 2 ^ (platform.longWidth - 1)
      then ((offset.toNat % 2 ^ platform.longWidth : ℕ) : ℤ)
      else ((offset.toNat % 2 ^ platform.longWidth : ℕ) : ℤ) -
        ((2 ^ platform.longWidth : ℕ) : ℤ) := by
  have hhalf := platform.two_mul_half
  unfold SftpContext.long
  rw [BitVec.toInt_eq_toNat_cond, BitVec.toNat_setWidth, hctx]
  by_cases h : offset.toNat % 2 ^ platform.longWidth < 2 ^ (platform.longWidth - 1)
  · rw [if_pos h, if_pos (by omega)]
  · rw [if_neg h, if_neg (by omega)]

theorem reaches_iff (hctx : ctx.longWidth = platform.longWidth) :
    host.Reaches ctx offset ↔ host.seeks = true ∧
      offset.toNat % 2 ^ platform.longWidth < 2 ^ (platform.longWidth - 1) := by
  have hlt : ((offset.toNat % 2 ^ platform.longWidth : ℕ) : ℤ) < (2 ^ platform.longWidth : ℕ) :=
    Int.ofNat_lt.mpr (Nat.mod_lt _ (Nat.two_pow_pos _))
  refine and_congr_right fun _ => ?_
  rw [long_eq hctx]
  split
  · next h => exact iff_of_true (Int.natCast_nonneg _) h
  · next h => exact iff_of_false (by omega) h

theorem toNat_long (hctx : ctx.longWidth = platform.longWidth) (h : host.Reaches ctx offset) :
    (ctx.long offset).toNat = offset.toNat % 2 ^ platform.longWidth := by
  rw [long_eq hctx, if_pos ((reaches_iff hctx).mp h).2, Int.toNat_natCast]

end Cast

/-! ## Where the operations act -/

/-- A session with one handle, open on the file through the stream. -/
def sessionOn (slot : Slot) (mode : OpenMode) (content : Bytes)
    (stream : BufferedStream UInt8) : Session HostFile where
  world := ⟨⟨content, fun _ => stream, 1⟩, SlotTable.put (fun _ => none) slot 0,
    [⟨.file ⟨some ⟨0, mode⟩, []⟩, false⟩]⟩

theorem hasOpen_sessionOn (mode : OpenMode) (content : Bytes) (stream : BufferedStream UInt8)
    {slot : Slot} {msg : SftpClientMessage} (h : msg.handle = some slot) :
    (sessionOn slot mode content stream).world.HasOpen msg ⟨0, mode⟩ := by
  refine ⟨0, [], ?_, rfl⟩
  unfold World.named
  rw [h]
  exact if_pos rfl

section Acting

variable {platform : Platform} {host : Host} {known : HostFile → FilePtr → Prop}
  {offset : BitVec 64}

/-- The condition under which the operations act at the offset: either the
position cannot be moved there, or it fits `long`, and what fails after
that does not fail silently. -/
def ActsWhen (platform : Platform) (host : Host) (offset : BitVec 64) : Prop :=
  host.seeks = true → offset.toNat % 2 ^ platform.longWidth < 2 ^ (platform.longWidth - 1) →
    offset.toNat < 2 ^ platform.longWidth ∧ host.readError ≠ some 0 ∧
      (host.writeError ≠ some 0 → host.flushes = true)

theorem transferred_eq_zero {error : Option ℕ} {size : ℕ} (h : error ≠ some 0)
    (hzero : transferred error size = 0) : size = 0 := by
  cases error with
  | none => exact hzero
  | some after =>
      have hafter : after ≠ 0 := fun h' => h (congrArg some h')
      change min size after = 0 at hzero
      omega

theorem readAnswer_found {ctx : SftpContext} {msg : SftpClientMessage} {content : Bytes}
    (hoffset : (ctx.long msg.offset).toNat = offset.toNat) (herror : host.readError ≠ some 0) :
    ReadAnswer content offset.toNat msg.len.toNat
      (if host.found ctx msg content = [] then .status .eof none
        else .data (host.found ctx msg content)) := by
  split
  · next hnil =>
      rw [Host.found, List.take_eq_nil_iff, List.drop_eq_nil_iff, hoffset] at hnil
      obtain hzero | hlength := hnil
      · have hlen := transferred_eq_zero herror hzero
        exact Or.inr (by omega)
      · exact Or.inl hlength
  · next hnil =>
      refine ⟨hnil, (List.length_take_le _ _).trans (transferred_le _ _), ?_⟩
      rw [← hoffset]
      exact List.take_prefix _ _

theorem ActsAt.mono {known' : HostFile → FilePtr → Prop} (h : ActsAt platform host known offset)
    (hknown : ∀ file fp, known' file fp → known file fp) : ActsAt platform host known' offset where
  read := fun ctx s msg fp hctx htype hmsg hopen hmode happends hfp =>
    h.read ctx s msg fp hctx htype hmsg hopen hmode happends (hknown _ _ hfp)
  write := h.write

/-- What is known of a stream is to make it fresh once it has been moved. -/
theorem ActsWhen.actsAt (h : ActsWhen platform host offset)
    (hfresh : host.seeks = true →
      offset.toNat % 2 ^ platform.longWidth < 2 ^ (platform.longWidth - 1) →
        ∀ file fp position, known file fp → (host.seek fp position file).Fresh fp) :
    ActsAt platform host known offset where
  read := by
    intro ctx s msg fp hctx htype hmsg hopen hmode _ hknown
    by_cases hreach : host.Reaches ctx msg.offset
    · obtain ⟨hseeks, hhalf⟩ := (reaches_iff hctx).mp hreach
      rw [hmsg] at hhalf
      obtain ⟨hfits, herror, -⟩ := h hseeks hhalf
      have hoffset : (ctx.long msg.offset).toNat = offset.toNat := by
        rw [toNat_long hctx hreach, hmsg, Nat.mod_eq_of_lt hfits]
      have hnext := next_eq_found msg (hfresh hseeks hhalf _ _ (ctx.long msg.offset) hknown)
      refine ⟨_, (serve_read htype hopen hmode hreach).1, ?_⟩
      rw [hnext]
      exact readAnswer_found hoffset herror
    · exact ⟨_, serve_failed (Or.inl htype) hopen hreach, trivial⟩
  write := by
    intro ctx s msg fp hctx htype hmsg hopen hmode happends hok
    by_cases hperm : canWrite ctx.perm = true
    · by_cases hreach : host.Reaches ctx msg.offset
      · obtain ⟨hseeks, hhalf⟩ := (reaches_iff hctx).mp hreach
        rw [hmsg] at hhalf
        obtain ⟨hfits, -, hflushes⟩ := h hseeks hhalf
        have hoffset : (ctx.long msg.offset).toNat = offset.toNat := by
          rw [toNat_long hctx hreach, hmsg, Nat.mod_eq_of_lt hfits]
        by_cases hall : transferred host.writeError msg.data.length = msg.data.length
        · rw [(serve_write htype hperm hopen hmode hreach hall).2, Host.seek, hoffset]
          by_cases hflush : host.flushes = true
          · have hwritten : fp.appends = false := happends
            rw [Host.settle, if_pos hflush, BufferedFile.content_flush_write hwritten]
          · have hzero : host.writeError = some 0 := not_imp_comm.mp hflushes hflush
            rw [hzero] at hall
            obtain hnil : msg.data = [] := List.eq_nil_of_length_eq_zero (by
              change min _ 0 = _ at hall
              omega)
            rw [Host.settle, if_neg hflush, hnil, overwrite_nil]
            rfl
        · rw [serve_write_short htype hperm hopen hmode hreach hall] at hok
          simp at hok
      · rw [serve_failed (Or.inr ⟨htype, hperm⟩) hopen hreach] at hok
        simp at hok
    · rw [serve_denied htype (Bool.eq_false_iff.mpr hperm)] at hok
      simp at hok

/-- One byte behind as many zeros as the offset says: what is read of it
tells where. -/
theorem ActsAt.reads (h : ActsAt platform host BufferedFile.Fresh offset)
    (hseeks : host.seeks = true)
    (hhalf : offset.toNat % 2 ^ platform.longWidth < 2 ^ (platform.longWidth - 1)) :
    offset.toNat < 2 ^ platform.longWidth ∧ host.readError ≠ some 0 := by
  let ctx : SftpContext := ⟨[], [], 0, platform.longWidth⟩
  let msg : SftpClientMessage := { type := .read, handle := some 0, offset, len := 1 }
  let content : Bytes := List.replicate offset.toNat 0 ++ [1]
  have hreach : host.Reaches ctx msg.offset := (reaches_iff rfl).mpr ⟨hseeks, hhalf⟩
  have hopen : (sessionOn 0 .rb content {}).world.HasOpen msg ⟨0, .rb⟩ :=
    hasOpen_sessionOn .rb content {} rfl
  have hfresh : (sessionOn 0 .rb content {}).world.env.Fresh ⟨0, .rb⟩ := .inl rfl
  have hbytes : (sessionOn 0 .rb content {}).world.env.bytesOf ⟨0, .rb⟩ = content :=
    BufferedFile.bytes_of_pending rfl
  obtain ⟨r, hr, hanswer⟩ :=
    h.read ctx (sessionOn 0 .rb content {}) msg _ rfl rfl rfl hopen rfl rfl hfresh
  rw [(serve_read rfl hopen rfl hreach).1, next_eq_found msg (hfresh.seek _ _ _ _), hbytes] at hr
  obtain rfl := List.singleton_inj.mp hr
  rw [hbytes] at hanswer
  have hlast : content.drop offset.toNat = [1] := List.drop_left' List.length_replicate
  split at hanswer
  · have hlength : content.length = offset.toNat + 1 := by simp [content]
    have hend : content.length ≤ offset.toNat ∨ 1 = 0 := hanswer
    omega
  · next hnil =>
      obtain ⟨-, -, hprefix⟩ := hanswer
      rw [hlast] at hprefix
      obtain ⟨rest, hfound, -⟩ := (List.prefix_cons_iff.mp hprefix).resolve_left hnil
      have herror : host.readError ≠ some 0 := fun h0 => hnil (found_unread h0 _ _ _)
      refine ⟨?_, herror⟩
      -- The byte lies where the offset is cast to, and nowhere but at the offset.
      have hhead : content[(ctx.long offset).toNat]? = some 1 := by
        have hmem : (host.found ctx msg content)[0]? = some 1 := by rw [hfound]; rfl
        rw [Host.found, List.getElem?_take, List.getElem?_drop] at hmem
        exact (Option.ite_none_right_eq_some.mp hmem).2
      have hcast : (ctx.long offset).toNat = offset.toNat % 2 ^ platform.longWidth :=
        toNat_long rfl hreach
      rw [hcast] at hhead
      have hle : offset.toNat ≤ offset.toNat % 2 ^ platform.longWidth := by
        by_contra hlt
        rw [List.getElem?_append_left (by rw [List.length_replicate]; omega),
          List.getElem?_replicate_of_lt (by omega)] at hhead
        exact absurd (Option.some.inj hhead) (by decide)
      exact hle.trans_lt (Nat.mod_lt _ (Nat.two_pow_pos _))

/-- A byte that has been read ahead, and another one in its place since. -/
theorem ActsAt.not_keeps (h : ActsAt platform host (fun _ _ => True) offset)
    (hseeks : host.seeks = true)
    (hhalf : offset.toNat % 2 ^ platform.longWidth < 2 ^ (platform.longWidth - 1)) :
    host.keeps = false := by
  by_contra hkeeps
  let ctx : SftpContext := ⟨[], [], 0, platform.longWidth⟩
  let msg : SftpClientMessage := { type := .read, handle := some 0, offset, len := 1 }
  let content : Bytes := List.replicate offset.toNat 0 ++ [1]
  let s : Session HostFile := sessionOn 0 .rb content { start := offset.toNat, ahead := [2] }
  have hreach : host.Reaches ctx msg.offset := (reaches_iff rfl).mpr ⟨hseeks, hhalf⟩
  have hopen : s.world.HasOpen msg ⟨0, .rb⟩ := hasOpen_sessionOn .rb content _ rfl
  obtain ⟨hfits, herror⟩ := (h.mono fun _ _ _ => trivial).reads hseeks hhalf
  have hoffset : (ctx.long offset).toNat = offset.toNat := by
    rw [toNat_long rfl hreach, Nat.mod_eq_of_lt hfits]
  have hone : 0 < host.reads msg := Nat.pos_of_ne_zero fun hzero =>
    Nat.one_ne_zero (transferred_eq_zero herror hzero)
  have hcovers : (s.world.env.streams ⟨0, .rb⟩).covers offset.toNat = true := by
    simp [s, sessionOn, BufferedStream.covers]
  have hbehind : content.drop (offset.toNat + 1) = [] := by simp [content]
  have hnext : (host.seek ⟨0, .rb⟩ (ctx.long offset) s.world.env).next ⟨0, .rb⟩ (host.reads msg) =
      [2] := by
    rw [Host.seek, Bool.of_not_eq_false hkeeps, hoffset, BufferedFile.next_seek_kept rfl hcovers]
    change (([2] : Bytes).drop (offset.toNat - offset.toNat) ++
      content.drop (offset.toNat + 1)).take (host.reads msg) = [2]
    rw [Nat.sub_self, List.drop_zero, hbehind, List.append_nil, List.take_of_length_le hone]
  obtain ⟨r, hr, hanswer⟩ := h.read ctx s msg _ rfl rfl rfl hopen rfl rfl trivial
  rw [(serve_read rfl hopen rfl hreach).1, hnext, if_neg (List.cons_ne_nil 2 [])] at hr
  obtain rfl := List.singleton_inj.mp hr
  have hbytes : s.world.env.bytesOf ⟨0, .rb⟩ = content := BufferedFile.bytes_of_pending rfl
  have hlast : content.drop offset.toNat = [1] := List.drop_left' List.length_replicate
  obtain ⟨-, -, hprefix⟩ := hanswer
  rw [hbytes, hlast] at hprefix
  exact absurd hprefix (by decide)

theorem ActsAt.writes (h : ActsAt platform host known offset) (hseeks : host.seeks = true)
    (hhalf : offset.toNat % 2 ^ platform.longWidth < 2 ^ (platform.longWidth - 1))
    (herror : host.writeError ≠ some 0) : host.flushes = true := by
  let ctx : SftpContext := ⟨[], [], SftpPermission.all, platform.longWidth⟩
  let msg : SftpClientMessage := { type := .write, handle := some 0, offset, data := [1] }
  have hreach : host.Reaches ctx msg.offset := (reaches_iff rfl).mpr ⟨hseeks, hhalf⟩
  have hopen : (sessionOn 0 .wb [] {}).world.HasOpen msg ⟨0, .wb⟩ :=
    hasOpen_sessionOn .wb [] {} rfl
  have hperm : canWrite SftpPermission.all = true := by decide
  have hall : transferred host.writeError 1 = 1 := by
    by_contra hne
    have hzero : transferred host.writeError 1 = 0 := by
      have hle := transferred_le host.writeError 1
      omega
    exact absurd (transferred_eq_zero herror hzero) (by decide)
  obtain ⟨hreplies, hworld⟩ := serve_write rfl hperm hopen rfl hreach hall
  by_contra hflush
  have hcontent := h.write ctx (sessionOn 0 .wb [] {}) msg _ rfl rfl rfl hopen rfl rfl
    (by rw [hreplies]; exact List.mem_singleton_self _)
  have hbyte := getElem?_overwrite (List.cons_ne_nil (1 : UInt8) []) [] offset.toNat offset.toNat
  have hempty : overwrite [] offset.toNat [(1 : UInt8)] = [] := by
    rw [hworld, Host.settle, if_neg hflush] at hcontent
    exact hcontent.symm
  rw [hempty, if_neg (Nat.lt_irrefl _), if_pos (by simp), Nat.sub_self] at hbyte
  cases hbyte

theorem actsAt_fresh_iff :
    ActsAt platform host BufferedFile.Fresh offset ↔ ActsWhen platform host offset := by
  constructor
  · intro h hseeks hhalf
    obtain ⟨hfits, herror⟩ := h.reads hseeks hhalf
    exact ⟨hfits, herror, h.writes hseeks hhalf⟩
  · exact fun h => h.actsAt fun _ _ _ _ _ hfresh => hfresh.seek _ _ _ _

theorem actsAt_iff : ActsAt platform host (fun _ _ => True) offset ↔
    ActsWhen platform host offset ∧ (host.seeks = true →
      offset.toNat % 2 ^ platform.longWidth < 2 ^ (platform.longWidth - 1) →
        host.keeps = false) := by
  constructor
  · exact fun h => ⟨actsAt_fresh_iff.mp (h.mono fun _ _ _ => trivial), h.not_keeps⟩
  · rintro ⟨h, hkeeps⟩
    refine h.actsAt fun hseeks hhalf file fp position _ => ?_
    rw [Host.seek, hkeeps hseeks hhalf]
    exact BufferedFile.fresh_seek _ _

end Acting

/-! ## Reading to the end -/

section Download

variable {platform : Platform} {host : Host} {ctx : SftpContext} {s : Session HostFile}
  {slot : Slot} {fp : FilePtr} {len : BitVec 32} {content : Bytes}

/-- The handle can be read from, and the file has the content. -/
structure Session.Reading (s : Session HostFile) (slot : Slot) (fp : FilePtr) (content : Bytes) :
    Prop where
  fault : s.fault = none
  opened : s.world.HasOpen { type := .read, handle := some slot } fp
  readable : fp.mode.readable = true
  fresh : s.world.env.Fresh fp
  bytes : s.world.env.bytesOf fp = content

/-- The READ of the client's loop. -/
abbrev readAt (slot : Slot) (len : BitVec 32) (offset : ℕ) : SftpClientMessage :=
  { type := .read, handle := some slot, offset := BitVec.ofNat 64 offset, len }

theorem download_failed (hs : s.Reading slot fp content) {offset : ℕ} (got : Bytes)
    (h : ¬ host.Reaches ctx (BitVec.ofNat 64 offset)) (fuel : ℕ) :
    download host.env ctx slot len fuel s offset got = none := by
  cases fuel with
  | zero => rfl
  | succ fuel =>
      have hreplies : replies (s.serve host.env ctx (readAt slot len offset)).events =
          [.status .failure none] := serve_failed (Or.inl rfl) hs.opened h
      rw [download, hreplies]
      exact Option.bind_eq_none_iff.mpr fun _ _ => rfl

/-- One READ of the loop: it ends at the end of the file, or goes on
behind what was found. -/
theorem download_succ (len : BitVec 32) (hs : s.Reading slot fp content) {offset : ℕ}
    (h : host.Reaches ctx (BitVec.ofNat 64 offset)) :
    ∃ t : Session HostFile, t.Reading slot fp content ∧ ∀ fuel got,
      download host.env ctx slot len (fuel + 1) s offset got =
        if host.found ctx (readAt slot len offset) content = [] then some got
        else download host.env ctx slot len fuel t
          (offset + (host.found ctx (readAt slot len offset) content).length)
          (got ++ host.found ctx (readAt slot len offset) content) := by
  have hmoved : (host.seek fp (ctx.long (readAt slot len offset).offset) s.world.env).Fresh fp :=
    hs.fresh.seek _ _ _ _
  obtain ⟨hreplies, hok, hworld⟩ :=
    serve_read (show (readAt slot len offset).type = .read from rfl) hs.opened hs.readable h
  rw [next_eq_found _ hmoved, hs.bytes] at hreplies
  obtain ⟨t, hstep⟩ : ∃ t, step host.env ctx s (readAt slot len offset) = some t :=
    ⟨_, step_eq_some_iff.mpr ⟨hs.fault, rfl⟩⟩
  obtain ⟨-, ht⟩ := step_eq_some_iff.mp hstep
  have hafter := (congrArg Session.world ht).trans hworld
  refine ⟨t, ⟨ht ▸ hok, ?_, hs.readable, ?_, ?_⟩, fun fuel got => ?_⟩
  · rw [hafter]
    exact hs.opened
  · rw [hafter]
    exact hmoved.advance _ _
  · rw [hafter]
    exact BufferedFile.bytes_advance_seek.trans hs.bytes
  · rw [download, hstep, Option.bind_some, hreplies]
    by_cases hnil : host.found ctx (readAt slot len offset) content = []
    · rw [if_pos hnil, if_pos hnil]
    · rw [if_neg hnil, if_neg hnil]

/-- What has been got grows by what is found. -/
theorem take_append_found (host : Host) (slot : Slot) (len : BitVec 32) {offset : ℕ}
    (hoffset : (ctx.long (BitVec.ofNat 64 offset)).toNat = offset)
    (hle : offset ≤ content.length) :
    content.take offset ++ host.found ctx (readAt slot len offset) content =
        content.take (offset + (host.found ctx (readAt slot len offset) content).length) ∧
      offset + (host.found ctx (readAt slot len offset) content).length ≤ content.length := by
  unfold Host.found
  rw [hoffset, ← List.take_add, List.length_take, List.length_drop]
  constructor
  · rw [List.take_eq_take_iff]
    omega
  · omega

/-- An offset that `long` can hold comes through the cast. -/
theorem toNat_ofNat_mod (platform : Platform) {offset : ℕ}
    (hfits : offset < 2 ^ platform.longWidth) :
    (BitVec.ofNat 64 offset).toNat % 2 ^ platform.longWidth = offset := by
  have hwidth : 2 ^ platform.longWidth ≤ 2 ^ 64 := by cases platform <;> decide
  rw [BitVec.toNat_ofNat, Nat.mod_eq_of_lt (hfits.trans_le hwidth), Nat.mod_eq_of_lt hfits]

/-- From an offset up to the end of a file that `long` can measure. -/
theorem download_content (hctx : ctx.longWidth = platform.longWidth) (hseeks : host.seeks = true)
    (herror : host.readError ≠ some 0) (hlen : len ≠ 0)
    (hsize : content.length < 2 ^ (platform.longWidth - 1)) {offset : ℕ}
    (hs : s.Reading slot fp content) (hoffset : offset ≤ content.length) :
    ∃ fuel, download host.env ctx slot len fuel s offset (content.take offset) = some content := by
  have hhalf := platform.two_mul_half
  induction hleft : content.length - offset using Nat.strong_induction_on generalizing s offset with
  | _ left ih =>
      have hfits : offset < 2 ^ platform.longWidth := by omega
      have hmod := toNat_ofNat_mod platform hfits
      have hreach : host.Reaches ctx (BitVec.ofNat 64 offset) :=
        (reaches_iff hctx).mpr ⟨hseeks, by omega⟩
      have hlong : (ctx.long (BitVec.ofNat 64 offset)).toNat = offset :=
        (toNat_long hctx hreach).trans hmod
      obtain ⟨t, ht, hdownload⟩ := download_succ len hs hreach
      obtain ⟨hgot, hle⟩ := take_append_found host slot len hlong hoffset
      by_cases hnil : host.found ctx (readAt slot len offset) content = []
      · refine ⟨1, ?_⟩
        rw [hdownload, if_pos hnil]
        rw [Host.found, List.take_eq_nil_iff, List.drop_eq_nil_iff, hlong] at hnil
        obtain hzero | hend := hnil
        · have hmin : min len.toNat 65536 = 0 := transferred_eq_zero herror hzero
          have hpos : len.toNat ≠ 0 := fun h => hlen (BitVec.eq_of_toNat_eq h)
          omega
        · rw [List.take_of_length_le hend]
      · have hpos := List.length_pos_iff.mpr hnil
        obtain ⟨fuel, hfuel⟩ := ih _ (by omega) ht hle rfl
        refine ⟨fuel + 1, ?_⟩
        rw [hdownload, if_neg hnil, hgot, hfuel]

/-- A loop that ends with the content has reached its end, and what it
could not move to it has not passed. -/
theorem length_of_download (hctx : ctx.longWidth = platform.longWidth) {fuel offset : ℕ}
    (hs : s.Reading slot fp content) (hoffset : offset ≤ content.length)
    (hfits : offset < 2 ^ platform.longWidth)
    (h : download host.env ctx slot len fuel s offset (content.take offset) = some content) :
    host.seeks = true ∧ content.length < 2 ^ (platform.longWidth - 1) := by
  have hhalf := platform.two_mul_half
  have hchunk : 65536 ≤ 2 ^ (platform.longWidth - 1) := by cases platform <;> decide
  induction fuel generalizing s offset with
  | zero => cases h
  | succ fuel ih =>
      by_cases hreach : host.Reaches ctx (BitVec.ofNat 64 offset)
      · have hmod := toNat_ofNat_mod platform hfits
        have hlong : (ctx.long (BitVec.ofNat 64 offset)).toNat = offset :=
          (toNat_long hctx hreach).trans hmod
        obtain ⟨hseeks, hsmall⟩ := (reaches_iff hctx).mp hreach
        rw [hmod] at hsmall
        obtain ⟨t, ht, hdownload⟩ := download_succ len hs hreach
        obtain ⟨hgot, hle⟩ := take_append_found host slot len hlong hoffset
        rw [hdownload] at h
        split at h
        · have hall : content.take offset = content := Option.some.inj h
          have hend : content.length ≤ offset := List.take_eq_self_iff _ |>.mp hall
          exact ⟨hseeks, hend.trans_lt hsmall⟩
        · rw [hgot] at h
          refine ih ht hle ?_ h
          have hfound : (host.found ctx (readAt slot len offset) content).length ≤ 65536 :=
            (List.length_take_le _ _).trans ((transferred_le _ _).trans (Nat.min_le_right _ _))
          omega
      · rw [download_failed hs _ hreach] at h
        cases h

/-- A host that reads nothing reports the end at once. -/
theorem download_unread (hctx : ctx.longWidth = platform.longWidth) (hseeks : host.seeks = true)
    (herror : host.readError = some 0) (hs : s.Reading slot fp content) (fuel : ℕ) :
    download host.env ctx slot len (fuel + 1) s 0 [] = some [] := by
  have hreach : host.Reaches ctx (BitVec.ofNat 64 0) :=
    (reaches_iff hctx).mpr ⟨hseeks, by cases platform <;> decide⟩
  obtain ⟨t, -, hdownload⟩ := download_succ len hs hreach
  rw [hdownload, if_pos (found_unread herror _ _ _)]

theorem reproduces_iff : Reproduces platform host content ↔ host.seeks = true ∧
    content.length < 2 ^ (platform.longWidth - 1) ∧ (host.readError = some 0 → content = []) := by
  constructor
  · intro h
    let ctx : SftpContext := ⟨[], [], 0, platform.longWidth⟩
    let s : Session HostFile := sessionOn 0 .rb content {}
    have hs : s.Reading 0 ⟨0, .rb⟩ content :=
      ⟨rfl, hasOpen_sessionOn .rb content {} rfl, rfl, .inl rfl, BufferedFile.bytes_of_pending rfl⟩
    obtain ⟨fuel, hfuel⟩ :=
      h ctx s 0 1 ⟨0, .rb⟩ rfl rfl hs.opened rfl rfl hs.fresh (by decide) hs.bytes
    obtain ⟨hseeks, hsize⟩ :=
      length_of_download rfl hs (Nat.zero_le _) (Nat.two_pow_pos platform.longWidth) hfuel
    refine ⟨hseeks, hsize, fun herror => ?_⟩
    cases fuel with
    | zero => cases hfuel
    | succ fuel =>
        have hlong : ctx.longWidth = platform.longWidth := rfl
        rw [download_unread hlong hseeks herror hs] at hfuel
        exact (Option.some.inj hfuel).symm
  · rintro ⟨hseeks, hsize, herror⟩ ctx s slot len fp hctx hfault hopen hmode - hfresh hlen hbytes
    have hs : s.Reading slot fp content := ⟨hfault, hopen, hmode, hfresh, hbytes⟩
    by_cases hunread : host.readError = some 0
    · refine ⟨1, ?_⟩
      rw [download_unread hctx hseeks hunread hs, herror hunread]
    · exact download_content hctx hseeks hunread hlen hsize hs (Nat.zero_le _)

/-- Where a stream has nothing stale in its buffer the operations act at
the offset under the condition, and from the start a file is read to its
end if `long` can measure it. A stream that has been opened has nothing
stale in its buffer as long as no other stream changes the file; where that
is not known, the library must not keep the buffer when it moves the
position. -/
theorem acts_at_iff (platform : Platform) (host : Host) :
    (∀ offset, ActsAt platform host BufferedFile.Fresh offset ↔ ActsWhen platform host offset) ∧
    (∀ file path mode,
      HostFile.Known (host.env.answer file (.fopen path mode)).2 ⟨file.opened, mode⟩) ∧
    (∀ ctx s fp msgs, s.world.env.Known fp →
      Along (step host.env ctx) (Undisturbed host ctx fp) s msgs →
        Always (step host.env ctx) (fun t => t.world.env.Fresh fp) s msgs) ∧
    (∀ offset, ActsAt platform host (fun _ _ => True) offset ↔
      ActsWhen platform host offset ∧ (host.seeks = true →
        offset.toNat % 2 ^ platform.longWidth < 2 ^ (platform.longWidth - 1) →
          host.keeps = false)) ∧
    ∀ content, Reproduces platform host content ↔ host.seeks = true ∧
      content.length < 2 ^ (platform.longWidth - 1) ∧
        (host.readError = some 0 → content = []) :=
  ⟨fun _ => actsAt_fresh_iff, known_fopen host,
    fun _ _ _ _ hknown hquiet => always_fresh hknown hquiet, fun _ => actsAt_iff,
    fun _ => reproduces_iff⟩

/-- A byte that one handle has read is read by it again after the other
handle's WRITE of another byte has been answered OK. -/
example :
    let host : Host := { realpath := fun _ => some daveRoot }
    let read : SftpClientMessage := { type := .read, handle := some 0, len := 1 }
    (run (step host.env daveContext) (Session.start { content := [1] })
        [{ type := .open, filename := "notes", flags := OpenFlags.read },
          { type := .open, filename := "notes", flags := OpenFlags.write }, read,
          { type := .write, handle := some 1, data := [2] }, read]).map
      (fun t => (t.world.env.content, replies (eventsOf t.served))) =
        some ([2], [.handle 0, .handle 1, .data [1], .status .ok none, .data [1]]) := by
  decide +kernel

/-- With 32 bits, a READ far behind the end of a file gives its first
byte, though no call fails. -/
theorem read_beyond_gives_start :
    ¬ ∀ platform host, host.seeks = true → host.readError = none → host.writeError = none →
      host.flushes = true → ∀ offset, ActsAt platform host BufferedFile.Fresh offset := by
  intro h
  let host : Host := { realpath := fun _ => some daveRoot }
  let ctx : SftpContext := { daveContext with longWidth := Platform.windowsI686.longWidth }
  let msg : SftpClientMessage :=
    { type := .read, handle := some 0, offset := 0x100000000, len := 1 }
  have hrun : ((step host.env ctx (Session.start { content := [1] })
      { type := .open, filename := "notes", flags := OpenFlags.read }).any fun t => decide
        (t.world.stream msg = some ⟨0, .rb⟩ ∧ t.world.env.content = [1] ∧
          t.world.env.streams ⟨0, .rb⟩ = {} ∧
            replies (t.serve host.env ctx msg).events = [.data [1]])) = true := by
    decide +kernel
  obtain ⟨t, -, ht⟩ := (Option.any_eq_true _ _).mp hrun
  obtain ⟨hstream, hcontent, hempty, hreplies⟩ := of_decide_eq_true ht
  have hfresh : t.world.env.Fresh ⟨0, .rb⟩ := .inl (congrArg BufferedStream.ahead hempty)
  have hbytes : t.world.env.bytesOf ⟨0, .rb⟩ = [1] :=
    (BufferedFile.bytes_of_pending (congrArg BufferedStream.pending hempty)).trans hcontent
  obtain ⟨r, hr, hanswer⟩ := (h .windowsI686 host rfl rfl rfl rfl 0x100000000).read ctx t msg _
    rfl rfl rfl (hasOpen_iff.mpr hstream) rfl rfl hfresh
  rw [hreplies] at hr
  obtain rfl := List.singleton_inj.mp hr
  obtain ⟨-, -, hprefix⟩ := hanswer
  rw [hbytes] at hprefix
  exact absurd hprefix (by decide)

end Download

end MockServices.Sftp
