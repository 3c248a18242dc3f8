import Mathlib.Data.UInt
import MockServices.Foundations.BufferedFile
import MockServices.Sftp.HandleTable
import MockServices.Sftp.OpenSemantics

/-!
# A file and the streams that are open on it

The host has one file, which every path names, and every OPEN has a stream
of its own on it, with a buffer of its own. A message works on the stream
of the handle that it names and on no other. So what a stream has read
ahead stays true to the file as long as no other stream changes the file.
-/

namespace MockServices.Sftp

open Foundations Foundations.Program

def OpenMode.appends : OpenMode → Bool
  | .ab | .abPlus => true
  | .rb | .wb | .rbPlus | .wbPlus => false

def FilePtr.appends (fp : FilePtr) : Bool := fp.mode.appends

abbrev HostFile := BufferedFile FilePtr UInt8

/-- The file as the user of the stream leaves it. -/
abbrev HostFile.bytesOf (file : HostFile) (fp : FilePtr) : Bytes := file.bytes fp FilePtr.appends

/-- What the calls on the file come to: whether a position can be moved,
after how many bytes reading and writing fail, and whether the buffer gets
out. Moving the position may keep what has been read ahead, as glibc does;
`window` says from how far before a position a stream reads ahead, and how
much. -/
structure Host where
  realpath : Realpath := fun _ => none
  seeks : Bool := true
  readError : Option ℕ := none
  writeError : Option ℕ := none
  flushes : Bool := true
  keeps : Bool := true
  window : ℕ → ℕ × ℕ := fun position => (position % 4096, 4096)

/-- The bytes that are transferred when that many are asked for. -/
def transferred (error : Option ℕ) (size : ℕ) : ℕ :=
  match error with
  | none => size
  | some after => min size after

theorem transferred_le (error : Option ℕ) (size : ℕ) : transferred error size ≤ size := by
  cases error with
  | none => exact Nat.le_refl size
  | some after => exact Nat.min_le_left size after

namespace Host

variable (host : Host)

def settle (fp : FilePtr) (file : HostFile) : HostFile :=
  if host.flushes then file.flush fp FilePtr.appends else file.drop fp

def seek (fp : FilePtr) (offset : ℤ) (file : HostFile) : HostFile :=
  file.seek fp FilePtr.appends host.keeps host.window offset.toNat

theorem read_nothing (fp : FilePtr) (size : ℕ) :
    ([] : Bytes).length ≤ size ∧ (fp.mode.readable = false → ([] : Bytes) = []) :=
  ⟨Nat.zero_le size, fun _ => rfl⟩

theorem wrote_nothing (fp : FilePtr) (data : Bytes) :
    0 ≤ data.length ∧ (fp.mode.writable = false → 0 = 0) :=
  ⟨Nat.zero_le data.length, fun _ => rfl⟩

def answer (file : HostFile) : (c : OsCall) → c.Answer × HostFile
  | .fopen _ mode => (some file.opened, file.openStream ⟨file.opened, mode⟩ mode.truncates)
  | .fseek fp offset =>
      if host.seeks = true ∧ 0 ≤ offset then (true, host.seek fp offset file) else (false, file)
  | .fread fp size =>
      if h : fp.mode.readable = true then
        (⟨file.next fp (transferred host.readError size),
          (List.length_take_le _ _).trans (transferred_le _ _), by simp [h]⟩,
          file.advance fp host.window (transferred host.readError size))
      else (⟨[], read_nothing fp size⟩, file)
  | .fwrite fp data =>
      if h : fp.mode.writable = true then
        (⟨transferred host.writeError data.length, transferred_le _ _, by simp [h]⟩,
          file.write fp (data.take (transferred host.writeError data.length)))
      else (⟨0, wrote_nothing fp data⟩, file)
  | .fflush fp => ((), host.settle fp file)
  | .fclose fp => ((), (host.settle fp file).put fp {})
  | c => (grantingAnswer host.realpath [] [] c, file)

def env : Environment HostFile where
  answer := host.answer
  slots := SlotChoice.first 256 ObjectId

end Host

/-! ## The stream of a message -/

section Streams

variable {σ : Type}

def OsCall.stream : OsCall → Option FilePtr
  | .fseek fp _ | .fread fp _ | .fwrite fp _ | .fflush fp | .fclose fp => some fp
  | _ => none

/-- The calls that work on no file stream and open none. -/
def OsCall.idle : OsCall → Bool
  | .fopen _ _ | .fseek _ _ | .fread _ _ | .fwrite _ _ | .fflush _ | .fclose _ => false
  | _ => true

/-- The stream on which the message's handle is open. -/
def World.stream (w : World σ) (msg : SftpClientMessage) : Option FilePtr :=
  (w.named msg).bind fun info =>
    match w.live info with
    | some (.file fd) => fd.fp
    | _ => none

/-- The message's handle is open on the stream. -/
def World.HasOpen (w : World σ) (msg : SftpClientMessage) (fp : FilePtr) : Prop :=
  ∃ info path, w.named msg = some info ∧ w.live info = some (.file ⟨some fp, path⟩)

theorem hasOpen_iff {w : World σ} {msg : SftpClientMessage} {fp : FilePtr} :
    w.HasOpen msg fp ↔ w.stream msg = some fp := by
  unfold World.stream
  rw [Option.bind_eq_some_iff]
  constructor
  · rintro ⟨info, path, hnamed, hlive⟩
    exact ⟨info, hnamed, by rw [hlive]⟩
  · rintro ⟨info, hnamed, hfp⟩
    split at hfp
    · next fd hlive =>
        obtain ⟨stream, path⟩ := fd
        obtain rfl : stream = some fp := hfp
        exact ⟨info, path, hnamed, hlive⟩
    · cases hfp

/-- The call works on no file stream but this one. -/
def OsCall.WorksOn (stream : Option FilePtr) (c : OsCall) : Prop :=
  c.idle = true ∨ ∃ fp, stream = some fp ∧ c.stream = some fp

/-- What READ, WRITE and CLOSE call: they work on one stream at most, and
make no object and no handle. -/
def Call.WorksOn (stream : Option FilePtr) : Call → Prop
  | .os c => c.WorksOn stream
  | .new _ | .store _ _ | .handleAlloc _ | .handleRemove (.object _) => False
  | _ => True

def Call.idle : Call → Prop
  | .os c => c.idle = true
  | _ => True

/-- The handle names the object that it named in the world, and a file is
what it was there. -/
def foundIn (w : World σ) : (c : Call) → c.Answer → Prop
  | .handle handle, info => info = handle.bind w.table
  | .file info, fd => w.live info = some (.file fd)
  | _, _ => True

/-- The handles are those of the other world, and the objects are some of
its objects. -/
structure World.Under (w w₀ : World σ) : Prop where
  table : w.table = w₀.table
  live : ∀ info data, w.live info = some data → w₀.live info = some data

theorem World.Under.perform {env : Environment σ} {w w' w₀ : World σ} {c : Call}
    {answer : c.Answer} {stream : Option FilePtr} (h : w.Under w₀) (hc : c.WorksOn stream)
    (hperform : perform env w c = .ok (answer, w')) : foundIn w₀ c answer ∧ w'.Under w₀ := by
  cases c with
  | os c =>
      obtain ⟨-, rfl⟩ := Prod.mk.inj (Except.ok.inj hperform)
      exact ⟨trivial, h.table, h.live⟩
  | logActivity =>
      obtain ⟨-, rfl⟩ := Prod.mk.inj (Except.ok.inj hperform)
      exact ⟨trivial, h⟩
  | handle handle =>
      obtain ⟨rfl, rfl⟩ := Prod.mk.inj (Except.ok.inj hperform)
      exact ⟨congrArg handle.bind h.table, h⟩
  | handleRemove pointer =>
      cases pointer with
      | object info => exact hc.elim
      | string =>
          rw [perform_handleRemove_string] at hperform
          obtain ⟨-, rfl⟩ := Prod.mk.inj (Except.ok.inj hperform)
          exact ⟨trivial, h⟩
  | new | store | handleAlloc => exact hc.elim
  | kindOf info =>
      obtain ⟨data, -, -, rfl⟩ := perform_kindOf_eq_ok_iff.mp hperform
      exact ⟨trivial, h⟩
  | file info =>
      obtain ⟨hlive, rfl⟩ := perform_file_eq_ok_iff.mp hperform
      exact ⟨h.live info _ hlive, h⟩
  | dir info =>
      obtain ⟨-, rfl⟩ := perform_dir_eq_ok_iff.mp hperform
      exact ⟨trivial, h⟩
  | delete kind info =>
      obtain ⟨data, hlive, -, rfl⟩ := perform_delete_eq_ok_iff.mp hperform
      refine ⟨trivial, h.table, fun other data' hother => h.live other data' ?_⟩
      rw [live_released hlive rfl] at hother
      exact (Option.ite_none_left_eq_some.mp hother).2

variable {ctx : SftpContext} {msg : SftpClientMessage}

theorem worksOn_housekeeping (stream : Option FilePtr) : Housekeeping (Call.WorksOn stream) := by
  constructor <;> intros <;> first | exact .inl rfl | trivial

/-- READ, WRITE and CLOSE work on the stream of their handle. -/
theorem processSftp_worksOn (w : World σ)
    (h : msg.type = .read ∨ msg.type = .write ∨ msg.type = .close) :
    Makes (foundIn w) (Call.WorksOn (w.stream msg)) (processSftp ctx msg) := by
  have hk := worksOn_housekeeping (w.stream msg)
  have hstream : ∀ {info fd fp}, foundIn w (.handle msg.handle) (some info) →
      foundIn w (.file info) fd → fd.fp = some fp → w.stream msg = some fp := by
    intro info fd fp hinfo hfd hfp
    have hnamed : w.named msg = some info := hinfo.symm
    have hlive : w.live info = some (.file fd) := hfd
    rw [World.stream, hnamed, Option.bind_some, hlive]
    exact hfp
  unfold processSftp
  rcases h with htype | htype | htype <;> simp only [htype]
  · exact makes_withFile hk (fun _ => trivial) fun _ fd hinfo hfd =>
      makes_seekFirst hk (fun fp _ hfp => .inr ⟨fp, hstream hinfo hfd hfp, rfl⟩) fun fp hfp =>
        makes_readFrom hk (fun _ => .inr ⟨fp, hstream hinfo hfd hfp, rfl⟩) fun _ _ _ => .inl rfl
  · exact makes_sftpDoWrite hk fun _ => makes_withFile hk (fun _ => trivial) fun _ fd hinfo hfd =>
      makes_seekFirst hk (fun fp _ hfp => .inr ⟨fp, hstream hinfo hfd hfp, rfl⟩) fun fp hfp =>
        makes_writeTo hk (fun _ => .inr ⟨fp, hstream hinfo hfd hfp, rfl⟩)
          (.inr ⟨fp, hstream hinfo hfd hfp, rfl⟩)
  · exact makes_sftpDoClose hk trivial (fun _ _ => trivial) (fun _ => trivial) (fun _ => trivial)
      (fun _ => trivial) (fun _ fd fp hinfo hfd hfp => .inr ⟨fp, hstream hinfo hfd hfp, rfl⟩)
      fun _ => .inl rfl

/-- The other messages leave the streams alone, OPEN apart. -/
theorem processSftp_idle (hopen : msg.type ≠ .open) (hread : msg.type ≠ .read)
    (hwrite : msg.type ≠ .write) (hclose : msg.type ≠ .close) :
    Makes (fun _ _ => True) Call.idle (processSftp ctx msg) := by
  have hk : Housekeeping Call.idle := by constructor <;> intros <;> first | rfl | trivial
  have hh : HandleCalls Call.idle := by constructor <;> intros <;> first | rfl | trivial
  unfold processSftp
  cases htype : msg.type with
  | «open» => exact absurd htype hopen
  | read => exact absurd htype hread
  | write => exact absurd htype hwrite
  | close => exact absurd htype hclose
  | opendir =>
      exact makes_sftpDoOpendir hk hh fun _ _ _ => ⟨rfl, trivial, fun _ _ => ⟨trivial, rfl⟩⟩
  | readdir =>
      exact makes_withDir hk (fun _ => trivial) fun _ _ _ =>
        makes_replyEntry hk rfl (fun _ => rfl) (fun _ => rfl) fun _ _ => rfl
  | stat | lstat => exact makes_sftpDoStat hk (fun _ _ => rfl) fun _ => rfl
  | fstat =>
      exact makes_withFile hk (fun _ => trivial) fun _ _ _ _ =>
        makes_replyFstat hk rfl fun _ => rfl
  | setstat => exact makes_sftpDoSetstat hk
  | fsetstat => exact makes_sftpDoFsetstat hk
  | mkdir => exact makes_sftpDoMkdir hk fun _ _ _ => rfl
  | rmdir => exact makes_sftpDoRmdir hk fun _ _ _ => rfl
  | remove => exact makes_sftpDoRemove hk fun _ _ _ => rfl
  | rename => exact makes_sftpDoRename hk fun _ _ _ _ _ _ _ => rfl
  | realpath => exact makes_sftpDoRealpath hk fun _ _ _ => rfl
  | other => exact makes_replyStatus hk _ _

/-- What is kept by the calls that work on the message's stream at most is
kept by the message. -/
theorem serve_keeps {env : Environment σ} {s : Session σ} {K : σ → Prop}
    (hopen : msg.type ≠ .open)
    (hkeeps : ∀ e c, c.WorksOn (s.world.stream msg) → K e → K (env.answer e c).2)
    (h : K s.world.env) : K (s.serve env ctx msg).world.env := by
  have hcall : ∀ {w w' : World σ} {c : Call} {answer : c.Answer},
      (∀ o, c = .os o → o.WorksOn (s.world.stream msg)) → K w.env →
        perform env w c = .ok (answer, w') → K w'.env := by
    intro w w' c answer hworks hK hperform
    rw [env_of_perform hperform]
    cases c with
    | os o => exact hkeeps _ o (hworks o rfl) hK
    | _ => exact hK
  by_cases hhandle : msg.type = .read ∨ msg.type = .write ∨ msg.type = .close
  · refine ((processSftp_worksOn s.world hhandle).invariant
      (I := fun w : World σ => w.Under s.world ∧ K w.env) ?_ ⟨⟨rfl, fun _ _ h => h⟩, h⟩).2.2
    intro w c answer w' hw hc hperform
    obtain ⟨hfound, hunder⟩ := hw.1.perform hc hperform
    exact ⟨hfound, hunder, hcall (fun o ho => by rw [ho] at hc; exact hc) hw.2 hperform⟩
  · obtain ⟨hread, hwrite, hclose⟩ :
        msg.type ≠ .read ∧ msg.type ≠ .write ∧ msg.type ≠ .close := by
      simpa only [not_or] using hhandle
    refine ((processSftp_idle hopen hread hwrite hclose).invariant (I := fun w : World σ => K w.env) ?_ h).2
    intro w c answer w' hw hc hperform
    exact ⟨trivial, hcall (fun o ho => .inl (by rw [ho] at hc; exact hc)) hw hperform⟩

/-- The calls of OPEN: it closes no stream but one that it has opened. -/
def Call.Spares (fp : FilePtr) : Call → Prop
  | .os (.fopen _ _) => True
  | .os (.fclose other) => fp ≠ other
  | .os c => c.idle = true
  | _ => True

/-- A stream that is opened is another one. -/
def opensAnother (fp : FilePtr) : (c : Call) → c.Answer → Prop
  | .os (.fopen _ _), id => id ≠ some fp.id
  | _, _ => True

theorem processSftp_spares (fp : FilePtr) (hopen : msg.type = .open) :
    Makes (opensAnother fp) (Call.Spares fp) (processSftp ctx msg) := by
  have hk : Housekeeping (Call.Spares fp) := by constructor <;> intros <;> first | rfl | trivial
  have hh : HandleCalls (Call.Spares fp) := by constructor <;> intros <;> first | rfl | trivial
  simp only [processSftp, hopen]
  refine makes_sftpDoOpen hk hh fun full _ _ => ⟨trivial, fun id hid => ⟨trivial, ?_⟩⟩
  exact fun hfp => hid (congrArg (fun fp => some fp.id) hfp.symm)

/-- OPEN makes a stream and leaves the others alone. -/
theorem serve_open_keeps {env : Environment σ} {s : Session σ} {K : σ → Prop} (fp : FilePtr)
    (hopen : msg.type = .open)
    (hfopen : ∀ e path mode, K e →
      (env.answer e (.fopen path mode)).1 ≠ some fp.id ∧ K (env.answer e (.fopen path mode)).2)
    (hfclose : ∀ e other, fp ≠ other → K e → K (env.answer e (.fclose other)).2)
    (hidle : ∀ e c, c.idle = true → K e → K (env.answer e c).2) (h : K s.world.env) :
    K (s.serve env ctx msg).world.env := by
  refine ((processSftp_spares fp hopen).invariant (I := fun w : World σ => K w.env) ?_ h).2
  intro w c answer w' hw hc hperform
  rw [env_of_perform hperform]
  cases c with
  | os o =>
      obtain ⟨rfl, -⟩ := Prod.mk.inj (Except.ok.inj hperform)
      cases o with
      | fopen path mode => exact hfopen _ path mode hw
      | fclose other => exact ⟨trivial, hfclose _ other hc hw⟩
      | fseek | fread | fwrite | fflush => cases hc
      | _ => exact ⟨trivial, hidle _ _ rfl hw⟩
  | _ => exact ⟨trivial, hw⟩

end Streams

/-! ## What a call does to a stream -/

/-- The stream has been opened, and what it has read ahead is in the file. -/
structure HostFile.Known (file : HostFile) (fp : FilePtr) : Prop where
  opened : fp.id < file.opened
  fresh : file.Fresh fp

section Calls

variable {host : Host} {file : HostFile} {fp : FilePtr} {c : OsCall}

theorem answer_idle (h : c.idle = true) (host : Host) (file : HostFile) :
    (host.env.answer file c).2 = file := by
  cases c <;> first | rfl | cases h

/-- A call on another stream. -/
theorem answer_other (host : Host) (file : HostFile) {other : FilePtr}
    (h : c.stream = some other) (hne : fp ≠ other) :
    file.Spares fp (host.env.answer file c).2 := by
  have hsettle : file.Spares fp (host.settle other file) := by
    unfold Host.settle
    split
    · exact BufferedFile.spares_flush hne
    · exact BufferedFile.spares_put hne _
  cases c with
  | fseek =>
      obtain rfl := Option.some.inj h
      dsimp only [Host.env, Host.answer]
      split
      · exact BufferedFile.spares_seek hne
      · exact ⟨rfl, rfl⟩
  | fread =>
      obtain rfl := Option.some.inj h
      dsimp only [Host.env, Host.answer]
      split
      · exact BufferedFile.spares_put hne _
      · exact ⟨rfl, rfl⟩
  | fwrite =>
      obtain rfl := Option.some.inj h
      dsimp only [Host.env, Host.answer]
      split
      · exact BufferedFile.spares_write hne _
      · exact ⟨rfl, rfl⟩
  | fflush =>
      obtain rfl := Option.some.inj h
      exact hsettle
  | fclose =>
      obtain rfl := Option.some.inj h
      exact ⟨(BufferedFile.put_streams_ne hne _).trans hsettle.1, hsettle.2⟩
  | _ => cases h

/-- A call on the stream itself. -/
theorem HostFile.Known.answer (h : file.Known fp) (hc : c.stream = some fp) :
    HostFile.Known (host.env.answer file c).2 fp := by
  have hsettle : HostFile.Known (host.settle fp file) fp := by
    unfold Host.settle
    split
    · exact ⟨h.opened, h.fresh.flush _⟩
    · exact ⟨h.opened, h.fresh.drop⟩
  cases c with
  | fseek =>
      obtain rfl := Option.some.inj hc
      dsimp only [Host.env, Host.answer]
      split
      · exact ⟨h.opened, h.fresh.seek _ _ _ _⟩
      · exact h
  | fread =>
      obtain rfl := Option.some.inj hc
      dsimp only [Host.env, Host.answer]
      split
      · exact ⟨h.opened, h.fresh.advance _ _⟩
      · exact h
  | fwrite fp data =>
      obtain rfl := Option.some.inj hc
      dsimp only [Host.env, Host.answer]
      split
      · exact ⟨by rw [BufferedFile.write_opened]; exact h.opened, h.fresh.write _⟩
      · exact h
  | fflush =>
      obtain rfl := Option.some.inj hc
      exact hsettle
  | fclose =>
      obtain rfl := Option.some.inj hc
      exact ⟨hsettle.opened, BufferedFile.fresh_put {} rfl⟩
  | _ => cases hc

/-- A stream that has just been opened. -/
theorem known_fopen (host : Host) (file : HostFile) (path : Text) (mode : OpenMode) :
    HostFile.Known (host.env.answer file (.fopen path mode)).2 ⟨file.opened, mode⟩ :=
  ⟨Nat.lt_succ_self file.opened, BufferedFile.fresh_openStream mode.truncates⟩

/-- Opening another one. -/
theorem fopen_other (h : fp.id < file.opened) (host : Host) (path : Text) (mode : OpenMode) :
    (host.env.answer file (.fopen path mode)).1 ≠ some fp.id ∧
      (host.env.answer file (.fopen path mode)).2.streams fp = file.streams fp ∧
        fp.id < (host.env.answer file (.fopen path mode)).2.opened := by
  refine ⟨fun hid => h.ne (Option.some.inj hid).symm, ?_, h.trans (Nat.lt_succ_self _)⟩
  exact BufferedFile.openStream_streams_ne (fun hfp => h.ne (congrArg FilePtr.id hfp)) _

end Calls

/-! ## Runs -/

section Runs

variable {host : Host} {ctx : SftpContext} {s t : Session HostFile} {msg : SftpClientMessage}
  {fp : FilePtr}

/-- The message is for the stream itself, or leaves the file as it is. -/
def Undisturbed (host : Host) (ctx : SftpContext) (fp : FilePtr) (s : Session HostFile)
    (msg : SftpClientMessage) : Prop :=
  msg.type ≠ .open ∧ s.world.HasOpen msg fp ∨
    (s.serve host.env ctx msg).world.env.content = s.world.env.content

/-- A message for another stream, or for none. -/
theorem serve_other (host : Host) (ctx : SftpContext) (hopened : fp.id < s.world.env.opened)
    (h : msg.type ≠ .open → ¬ s.world.HasOpen msg fp) :
    fp.id < (s.serve host.env ctx msg).world.env.opened ∧
      (s.serve host.env ctx msg).world.env.streams fp = s.world.env.streams fp := by
  let K : HostFile → Prop := fun file =>
    fp.id < file.opened ∧ file.streams fp = s.world.env.streams fp
  have hidle : ∀ (file : HostFile) (c : OsCall), c.idle = true → K file →
      K (host.env.answer file c).2 := by
    intro file c hc hK
    rwa [answer_idle hc]
  have hother : ∀ (file : HostFile) (c : OsCall) (other : FilePtr), c.stream = some other →
      fp ≠ other → K file → K (host.env.answer file c).2 := by
    intro file c other hc hne hK
    obtain ⟨hstreams, hopen⟩ := answer_other host file hc hne
    exact ⟨hopen ▸ hK.1, hstreams.trans hK.2⟩
  by_cases hopen : msg.type = .open
  · refine serve_open_keeps (K := K) fp hopen (fun file path mode hK => ?_)
      (fun file other hne => hother file _ other rfl hne) hidle ⟨hopened, rfl⟩
    obtain ⟨hid, hstreams, hlt⟩ := fopen_other hK.1 host path mode
    exact ⟨hid, hlt, hstreams.trans hK.2⟩
  · refine serve_keeps (K := K) hopen (fun file c hc hK => ?_) ⟨hopened, rfl⟩
    obtain hc | ⟨other, hstream, hc⟩ := hc
    · exact hidle file c hc hK
    · refine hother file c other hc ?_ hK
      rintro rfl
      exact h hopen (hasOpen_iff.mpr hstream)

/-- A message for the stream itself. -/
theorem serve_own (h : s.world.env.Known fp) (hopen : msg.type ≠ .open)
    (hown : s.world.HasOpen msg fp) : (s.serve host.env ctx msg).world.env.Known fp := by
  refine serve_keeps (K := fun file : HostFile => file.Known fp) hopen (fun file c hc hK => ?_) h
  obtain hc | ⟨own, hstream, hc⟩ := hc
  · rwa [answer_idle hc]
  · rw [hasOpen_iff.mp hown] at hstream
    exact hK.answer (hc.trans hstream.symm)

theorem known_step (h : s.world.env.Known fp) (hstep : step host.env ctx s msg = some t)
    (hquiet : Undisturbed host ctx fp s msg) : t.world.env.Known fp := by
  obtain ⟨-, rfl⟩ := step_eq_some_iff.mp hstep
  by_cases hown : msg.type ≠ .open ∧ s.world.HasOpen msg fp
  · exact serve_own h hown.1 hown.2
  · obtain ⟨hopened, hstreams⟩ :=
      serve_other host ctx h.opened fun hopen hhas => hown ⟨hopen, hhas⟩
    refine ⟨hopened, ?_⟩
    change BufferedStream.Fresh _ _
    rw [hstreams, hquiet.resolve_left hown]
    exact h.fresh

/-- As long as no other stream changes the file, what the stream has read
ahead is in the file. -/
theorem always_fresh {msgs : List SftpClientMessage} (h : s.world.env.Known fp)
    (hquiet : Along (step host.env ctx) (Undisturbed host ctx fp) s msgs) :
    Always (step host.env ctx) (fun t => t.world.env.Fresh fp) s msgs :=
  always_of_invariant_along (fun _ _ _ hknown hP hstep => known_step hknown hstep hP)
    (fun _ hknown => hknown.fresh) h hquiet

end Runs

end MockServices.Sftp
