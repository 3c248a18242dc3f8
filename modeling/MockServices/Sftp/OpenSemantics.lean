import MockServices.Sftp.DataLoss
import MockServices.Sftp.ReplyCount

/-!
# What OPEN does with CREAT and EXCL

Three pieces decide: `resolve_path`, which wants the object to exist
unless CREAT is set, the mode that the flags give, and what `fopen` makes
of the mode. They fit together when CREAT comes with WRITE and a file is
missing; EXCL is not looked at.
-/

namespace MockServices.Sftp

open Foundations Foundations.Program Foundations.SegmentPath

variable {σ : Type}

/-- `SSH_FXF_EXCL`. -/
def OpenFlags.excl : OpenFlags := 0x20

/-- `fopen` makes a file of the mode where there is none. -/
def OpenMode.creates : OpenMode → Bool
  | .rb | .rbPlus => false
  | .wb | .ab | .wbPlus | .abPlus => true

def OpenMode.truncates : OpenMode → Bool
  | .wb | .wbPlus => true
  | .rb | .ab | .rbPlus | .abPlus => false

/-- `realpath` in a state of the environment. -/
def Environment.realpath (env : Environment σ) (e : σ) : Realpath := (env.answer e .realpath).1

/-- `realpath` and the calls that follow a path find what is in the file
system: a name in a directory that `realpath` has answered. -/
structure Disk.Resolves (disk : Disk σ) (e : σ) : Prop where
  missing : ∀ text dir base, disk.env.realpath e text = some dir → IsName '/' '.' base →
    (disk.files e).entry (dir.names ++ [base]) = none →
      disk.env.realpath e (text ++ '/' :: base) = none
  present : ∀ text dir base inode, disk.env.realpath e text = some dir → IsName '/' '.' base →
    (disk.files e).entry (dir.names ++ [base]) = some (.file inode) →
      ∃ found, disk.env.realpath e (text ++ '/' :: base) = some found ∧
        found.names = dir.names ++ [base]
  found : ∀ text found, disk.env.realpath e text = some found →
    disk.follow (disk.files e) found.text = some found.names
  new : ∀ text dir base, disk.env.realpath e text = some dir → IsName '/' '.' base →
    (disk.files e).entry (dir.names ++ [base]) = none →
      disk.follow (disk.files e) (dir.text ++ '/' :: base) = some (dir.names ++ [base])

/-- `fopen` succeeds whenever its mode and the file's existence allow. -/
def Disk.OpensFreely (disk : Disk σ) : Prop :=
  ∀ e path mode place, disk.follow (disk.files e) path = some place →
    ((disk.files e).fileAt place ≠ none ∨ mode.creates = true ∧ (disk.files e).Vacant place) →
      (disk.env.answer e (.fopen path mode)).1 ≠ none

/-- The client's path ends in a name in an existing directory inside the
user's root. -/
structure Placed (disk : Disk σ) (ctx : SftpContext) (e : σ) (path : Text) (dir : Canonical)
    (base : Text) : Prop where
  parent : disk.env.realpath e (dirAndBase (combinedPath ctx.root path)).1 = some dir
  base_eq : (dirAndBase (combinedPath ctx.root path)).2 = base
  isName : IsName '/' '.' base
  directory : (disk.files e).entry dir.names = some .directory
  inside : ∃ root, disk.env.realpath e (normalizeSeparators ctx.root) = some root ∧
    root.names <+: dir.names

/-- The client was sent a handle. -/
def Opened (events : List (Event Call.Answer)) : Prop :=
  ∃ slot, (⟨.os (.reply (.handle slot)), true⟩ : Event Call.Answer) ∈ events

/-- OPEN honours CREAT and EXCL, where nothing or a file is at the place. -/
structure Honours (disk : Disk σ) (ctx : SftpContext) (s : Session σ) (msg : SftpClientMessage)
    (place : List Text) : Prop where
  created : (disk.files s.world.env).entry place = none → msg.flags &&& OpenFlags.creat ≠ 0 →
    Opened (s.serve disk.env ctx msg).events ∧ ∃ inode,
      (disk.files (s.serve disk.env ctx msg).world.env).entry place = some (.file inode) ∧
        (disk.files (s.serve disk.env ctx msg).world.env).content inode = []
  missing : (disk.files s.world.env).entry place = none → msg.flags &&& OpenFlags.creat = 0 →
    ¬ Opened (s.serve disk.env ctx msg).events ∧
      disk.files (s.serve disk.env ctx msg).world.env = disk.files s.world.env
  exclusive : ∀ inode, (disk.files s.world.env).entry place = some (.file inode) →
    msg.flags &&& OpenFlags.creat ≠ 0 → msg.flags &&& OpenFlags.excl ≠ 0 →
      ¬ Opened (s.serve disk.env ctx msg).events ∧
        (disk.files (s.serve disk.env ctx msg).world.env).entry place = some (.file inode) ∧
          (disk.files (s.serve disk.env ctx msg).world.env).content inode =
            (disk.files s.world.env).content inode
  opened : ∀ inode, (disk.files s.world.env).entry place = some (.file inode) →
    (msg.flags &&& OpenFlags.creat = 0 ∨ msg.flags &&& OpenFlags.excl = 0) →
      Opened (s.serve disk.env ctx msg).events

/-- `resolve_path` accepts the path, a slot is free for the handle, and
the reply goes out. -/
def Session.Granted (disk : Disk σ) (ctx : SftpContext) (s : Session σ) (msg : SftpClientMessage) :
    Prop :=
  ∃ e full slot, s.opening disk.env ctx msg = some (e, full) ∧
    disk.env.slots.choose s.world.table = some slot ∧
      (disk.env.answer (disk.env.answer e (.fopen full (sftpFlagsToMode msg.flags).1)).2
        (.reply (.handle slot))).1 = true

/-- When OPEN honours the flags: CREAT on a missing file comes with WRITE
and, if READ is there too, with APPEND or TRUNC; CREAT and EXCL do not
meet an existing file. Beyond the flags, what is to be opened is granted;
if it is not granted, not even CREAT and EXCL open the file. -/
structure Honourable (disk : Disk σ) (ctx : SftpContext) (s : Session σ) (msg : SftpClientMessage)
    (place : List Text) : Prop where
  creates : (disk.files s.world.env).entry place = none → msg.flags &&& OpenFlags.creat ≠ 0 →
    msg.flags &&& OpenFlags.write ≠ 0 ∧
      (msg.flags &&& OpenFlags.read = 0 ∨ msg.flags &&& OpenFlags.append ≠ 0 ∨
        msg.flags &&& OpenFlags.trunc ≠ 0) ∧ s.Granted disk ctx msg
  exclusive : ∀ inode, (disk.files s.world.env).entry place = some (.file inode) →
    msg.flags &&& OpenFlags.creat ≠ 0 → msg.flags &&& OpenFlags.excl ≠ 0 →
      ¬ s.Granted disk ctx msg ∧
        (s.opening disk.env ctx msg ≠ none → (sftpFlagsToMode msg.flags).1.truncates = true →
          (disk.files s.world.env).content inode = [])
  granted : ∀ inode, (disk.files s.world.env).entry place = some (.file inode) →
    (msg.flags &&& OpenFlags.creat = 0 ∨ msg.flags &&& OpenFlags.excl = 0) →
      s.Granted disk ctx msg

/-! ## Whether a handle is sent -/

section Opened

variable {env : Environment σ} {ctx : SftpContext} {msg : SftpClientMessage}

def Call.sendsNoHandle : Call → Prop
  | .os (.reply (.handle _)) => False
  | _ => True

theorem sendsNoHandle_housekeeping : Housekeeping Call.sendsNoHandle := by
  constructor <;> simp [Call.sendsNoHandle]

theorem opened_append_iff (xs ys : List (Event Call.Answer)) :
    Opened (xs ++ ys) ↔ Opened xs ∨ Opened ys := by
  simp only [Opened, List.mem_append, exists_or]

theorem not_opened_of_makes {p : Handler Unit} (hp : Makes (fun _ _ => True) Call.sendsNoHandle p)
    (w : World σ) : ¬ Opened (p.execute (perform env) w).events := by
  rintro ⟨slot, h⟩
  exact hp.events (fun _ _ => trivial) _ h

theorem not_opened_single {c : Call} {answer : c.Answer} (h : c.sendsNoHandle) :
    ¬ Opened [⟨c, answer⟩] := by
  rintro ⟨slot, hmem⟩
  obtain ⟨rfl, -⟩ := Sigma.mk.inj (List.mem_singleton.mp hmem)
  exact h

theorem opened_single_reply (slot : Slot) (sent : Bool) :
    Opened [⟨.os (.reply (.handle slot)), sent⟩] ↔ sent = true := by
  constructor
  · rintro ⟨slot', hmem⟩
    cases List.mem_singleton.mp hmem
    rfl
  · rintro rfl
    exact ⟨slot, List.mem_singleton_self _⟩

theorem opened_giveHandle (operation path : Text) (info : ObjectId) (data : HandleData)
    (w : World σ) :
    Opened ((giveHandle ctx operation path info data).execute (perform env) w).events ↔
      ∃ slot, env.slots.choose w.table = some slot ∧
        (env.answer w.env (.reply (.handle slot))).1 = true := by
  have hk := sendsNoHandle_housekeeping
  have hclose : Makes (fun _ _ => True) Call.sendsNoHandle (closeData data) :=
    makes_closeData (forall_closing (fun _ => trivial) (fun _ => trivial))
  unfold giveHandle
  cases hchoose : env.slots.choose w.table with
  | none =>
      have halloc : perform env w (.handleAlloc info) = .ok (none, w) := by
        rw [perform_handleAlloc, hchoose]
      rw [request_bind, execute_call_ok _ halloc, Execution.after_events, opened_append_iff]
      apply iff_of_false
      · rintro (h | h)
        · exact not_opened_single (c := .handleAlloc info) trivial h
        · refine not_opened_of_makes ?_ w h
          exact makes_bind hclose fun _ => makes_bind (makes_call trivial) fun _ =>
            makes_replyStatus hk _ _
      · simp
  | some slot =>
      have halloc : perform env w (.handleAlloc info) =
          .ok (some slot, { w with table := w.table.put slot info }) := by
        rw [perform_handleAlloc, hchoose]
      rw [request_bind, execute_call_ok _ halloc]
      simp only [reply, request_bind, execute_call_ok _ (perform_os _), Execution.after_after,
        Execution.after_events, opened_append_iff, opened_single_reply, Option.some.injEq]
      constructor
      · rintro ((h | h) | h)
        · exact absurd h (not_opened_single trivial)
        · exact ⟨slot, rfl, h⟩
        · refine absurd h (not_opened_of_makes ?_ _)
          split
          · exact makes_call (hk.log _ _ _ _)
          · exact makes_bind hclose fun _ => makes_bind (makes_call trivial) fun _ =>
              makes_bind (makes_call trivial) fun _ => makes_call (hk.log _ _ _ _)
      · rintro ⟨slot', rfl, h⟩
        exact Or.inl (Or.inr h)

theorem not_opened_refuse (ctx : SftpContext) (operation path result : Text) (code : StatusCode)
    (w : World σ) :
    ¬ Opened ((refuse ctx operation path result code).execute (perform env) w).events :=
  not_opened_of_makes (makes_refuse sendsNoHandle_housekeeping _ _ _ _) w

/-- A call that sends no handle leaves it to what follows. -/
theorem opened_call_bind {c : Call} (hc : c.sendsNoHandle) {answer : c.Answer} {w w' : World σ}
    (hperform : perform env w c = .ok (answer, w')) (next : c.Answer → Handler Unit) :
    Opened ((call c >>= next).execute (perform env) w).events ↔
      Opened ((next answer).execute (perform env) w').events := by
  rw [request_bind, execute_call_ok _ hperform, Execution.after_events, opened_append_iff,
    or_iff_right (not_opened_single hc)]

/-- Only a path that is resolved comes to a handle. -/
theorem opened_withResolved (operation path : Text) (mustExist : Bool) (missing : Text)
    (code : StatusCode) (next : Text → Handler Unit) (w : World σ) :
    Opened ((withResolved ctx operation path mustExist missing code next).execute
        (perform env) w).events ↔
      ∃ e full, resolvedIn env ctx w.env path mustExist = some (e, full) ∧
        Opened ((next full).execute (perform env) { w with env := e }).events := by
  have hrealpath : ¬ Opened
      [(⟨.os .realpath, (env.answer w.env .realpath).1⟩ : Event Call.Answer)] :=
    not_opened_single (c := .os .realpath) trivial
  cases hresolved : resolvedIn env ctx w.env path mustExist with
  | none =>
      rw [execute_withResolved_none hresolved, Execution.after_events, opened_append_iff,
        or_iff_right hrealpath]
      apply iff_of_false
      · exact not_opened_refuse _ _ _ _ _ _
      · rintro ⟨e, full, hsome, -⟩
        cases hsome
  | some resolved =>
      obtain ⟨e, full⟩ := resolved
      rw [execute_withResolved hresolved, Execution.after_events, opened_append_iff,
        or_iff_right hrealpath]
      constructor
      · exact fun h => ⟨e, full, rfl, h⟩
      · rintro ⟨e', full', hsome, h⟩
        cases hsome
        exact h

/-- OPEN succeeds when it is granted and `fopen` succeeds. -/
theorem opened_open_iff {disk : Disk σ} {s : Session σ} (htype : msg.type = .open) :
    Opened (s.serve disk.env ctx msg).events ↔
      (∃ e full, s.opening disk.env ctx msg = some (e, full) ∧
        (disk.env.answer e (.fopen full (sftpFlagsToMode msg.flags).1)).1 ≠ none) ∧
          s.Granted disk ctx msg := by
  unfold Session.serve processSftp Session.Granted Session.opening
  rw [htype]
  simp only [sftpDoOpen]
  split
  · apply iff_of_false
    · exact not_opened_refuse _ _ _ _ _ _
    · rintro ⟨⟨e, full, hnone, -⟩, -⟩
      cases hnone
  · rw [opened_withResolved]
    calc
      _ ↔ ∃ e full, resolvedIn disk.env ctx s.world.env msg.filename
            (msg.flags &&& OpenFlags.creat == 0) = some (e, full) ∧
          (disk.env.answer e (.fopen full (sftpFlagsToMode msg.flags).1)).1 ≠ none ∧ ∃ slot,
            disk.env.slots.choose s.world.table = some slot ∧
              (disk.env.answer (disk.env.answer e (.fopen full (sftpFlagsToMode msg.flags).1)).2
                (.reply (.handle slot))).1 = true := by
          refine exists_congr fun e => exists_congr fun full => and_congr_right fun _ => ?_
          rw [opened_call_bind (c := .os (.fopen full (sftpFlagsToMode msg.flags).1)) trivial
            (perform_os _)]
          cases hid : (disk.env.answer e (.fopen full (sftpFlagsToMode msg.flags).1)).1 with
          | none => exact iff_of_false (not_opened_refuse _ _ _ _ _ _) fun h => h.1 rfl
          | some id =>
              dsimp only
              rw [opened_call_bind (c := .new _) trivial (perform_new _), opened_giveHandle]
              exact ⟨fun h => ⟨Option.some_ne_none id, h⟩, fun h => h.2⟩
      _ ↔ _ := by
          constructor
          · rintro ⟨e, full, hresolved, hid, slot, hslot⟩
            exact ⟨⟨e, full, hresolved, hid⟩, e, full, slot, hresolved, hslot⟩
          · rintro ⟨⟨e, full, hresolved, hid⟩, e', full', slot, hresolved', hslot⟩
            rw [hresolved] at hresolved'
            cases hresolved'
            exact ⟨e, full, hresolved, hid, slot, hslot⟩

end Opened

/-! ## Where the path leads -/

section Placed

variable {disk : Disk σ} {ctx : SftpContext} {s : Session σ} {msg : SftpClientMessage}
  {dir : Canonical} {base : Text}

/-- What OPEN hands to `fopen` comes from the two `realpath` branches. -/
theorem opening_resolved {e : σ} {full : Text} (h : s.opening disk.env ctx msg = some (e, full)) :
    resolvedText (disk.env.realpath s.world.env) (combinedPath ctx.root msg.filename)
      (msg.flags &&& OpenFlags.creat == 0) = some full := by
  unfold Session.opening at h
  split at h
  · cases h
  · unfold resolvedIn at h
    dsimp only at h
    split at h
    · cases h
    · next hfull =>
        obtain ⟨-, rfl⟩ := Prod.mk.inj (Option.some.inj h)
        exact ((resolvePath_eq_iff hfull).mp rfl).2.1

theorem Placed.combined (h : Placed disk ctx s.world.env msg.filename dir base) :
    combinedPath ctx.root msg.filename =
      (dirAndBase (combinedPath ctx.root msg.filename)).1 ++ '/' :: base := by
  have hmem : '/' ∈ combinedPath ctx.root msg.filename := by
    by_contra hnot
    have hbase := h.base_eq
    rw [dirAndBase_of_notMem hnot] at hbase
    exact h.isName.ne_nil hbase.symm
  rw [← h.base_eq, dirAndBase_append hmem]

theorem Placed.vacant (h : Placed disk ctx s.world.env msg.filename dir base)
    (hentry : (disk.files s.world.env).entry (dir.names ++ [base]) = none) :
    (disk.files s.world.env).Vacant (dir.names ++ [base]) := by
  refine ⟨by simp, hentry, ?_⟩
  rw [List.dropLast_concat]
  exact h.directory

/-- Nothing is there: the name is appended to the directory, with CREAT only. -/
theorem opening_of_missing (hresolves : disk.Resolves s.world.env)
    (hplaced : Placed disk ctx s.world.env msg.filename dir base)
    (hentry : (disk.files s.world.env).entry (dir.names ++ [base]) = none) {e : σ} {full : Text}
    (h : s.opening disk.env ctx msg = some (e, full)) :
    msg.flags &&& OpenFlags.creat ≠ 0 ∧
      disk.follow (disk.files e) full = some (dir.names ++ [base]) := by
  have hfull := opening_resolved h
  have hnone : disk.env.realpath s.world.env (combinedPath ctx.root msg.filename) = none := by
    rw [hplaced.combined]
    exact hresolves.missing _ dir base hplaced.parent hplaced.isName hentry
  rw [resolvedText, hnone] at hfull
  dsimp only at hfull
  split at hfull
  · cases hfull
  · next hcreat =>
      rw [hplaced.parent, hplaced.base_eq] at hfull
      obtain rfl := Option.some.inj hfull
      refine ⟨by simpa using hcreat, ?_⟩
      rw [opened_files h]
      exact hresolves.new _ dir base hplaced.parent hplaced.isName hentry

theorem opening_of_present (hresolves : disk.Resolves s.world.env)
    (hplaced : Placed disk ctx s.world.env msg.filename dir base) {inode : ℕ}
    (hentry : (disk.files s.world.env).entry (dir.names ++ [base]) = some (.file inode)) {e : σ}
    {full : Text} (h : s.opening disk.env ctx msg = some (e, full)) :
    disk.follow (disk.files e) full = some (dir.names ++ [base]) := by
  have hfull := opening_resolved h
  obtain ⟨found, hfound, hnames⟩ :=
    hresolves.present _ dir base inode hplaced.parent hplaced.isName hentry
  rw [← hplaced.combined] at hfound
  rw [resolvedText, hfound] at hfull
  obtain rfl := Option.some.inj hfull
  rw [opened_files h, ← hnames]
  exact hresolves.found _ found hfound

/-- What a successful `fopen` leaves. -/
theorem files_of_fopen {e : σ} {full : Text} {place : List Text} {mode : OpenMode}
    (hfollow : disk.follow (disk.files e) full = some place)
    (h : (disk.env.answer e (.fopen full mode)).1 ≠ none) :
    mode.open (disk.files e) place =
      some (disk.files (disk.env.answer e (.fopen full mode)).2) := by
  have heffect := disk.fopen e full mode
  rwa [Effective, if_pos (Option.isSome_iff_ne_none.mpr h), hfollow, Option.bind_some] at heffect

end Placed

/-! ## Flags and modes -/

theorem rw_cases (flags : OpenFlags) :
    flags &&& (OpenFlags.read ||| OpenFlags.write) ∈
      [0, OpenFlags.read, OpenFlags.write, OpenFlags.read ||| OpenFlags.write] := by
  have hmask : (OpenFlags.read ||| OpenFlags.write).toNat = 2 ^ 2 - 1 := by decide
  have hvalue : (flags &&& (OpenFlags.read ||| OpenFlags.write)).toNat < 4 := by
    rw [BitVec.toNat_and, hmask, Nat.and_two_pow_sub_one_eq_mod]
    exact Nat.mod_lt _ (by decide)
  have hofNat := BitVec.ofNat_toNat 32 (flags &&& (OpenFlags.read ||| OpenFlags.write))
  rw [BitVec.setWidth_eq] at hofNat
  rw [← hofNat]
  generalize (flags &&& (OpenFlags.read ||| OpenFlags.write)).toNat = n at hvalue
  obtain rfl | rfl | rfl | rfl : n = 0 ∨ n = 1 ∨ n = 2 ∨ n = 3 := by omega
  all_goals decide

theorem creates_iff {flags : OpenFlags} (hcreat : flags &&& OpenFlags.creat ≠ 0) :
    (sftpFlagsToMode flags).1.creates = true ↔
      flags &&& OpenFlags.write ≠ 0 ∧
        (flags &&& OpenFlags.read = 0 ∨ flags &&& OpenFlags.append ≠ 0 ∨
          flags &&& OpenFlags.trunc ≠ 0) := by
  have hread : flags &&& OpenFlags.read =
      flags &&& (OpenFlags.read ||| OpenFlags.write) &&& OpenFlags.read := by
    rw [BitVec.and_assoc]
    rfl
  have hwrite : flags &&& OpenFlags.write =
      flags &&& (OpenFlags.read ||| OpenFlags.write) &&& OpenFlags.write := by
    rw [BitVec.and_assoc]
    rfl
  have hcases := rw_cases flags
  rw [hread, hwrite]
  unfold sftpFlagsToMode
  dsimp only
  generalize flags &&& (OpenFlags.read ||| OpenFlags.write) = access at hcases
  simp only [List.mem_cons, List.not_mem_nil, or_false] at hcases
  rcases hcases with rfl | rfl | rfl | rfl
  · have hne : (0 : OpenFlags) ≠ OpenFlags.read ∧ (0 : OpenFlags) ≠ OpenFlags.write ∧
        (0 : OpenFlags) ≠ OpenFlags.read ||| OpenFlags.write := by decide
    have hnot : ¬ (0 : OpenFlags) &&& OpenFlags.write ≠ 0 := by decide
    rw [if_neg hne.1, if_neg hne.2.1, if_neg hne.2.2]
    exact iff_of_false (by decide) fun h => hnot h.1
  · have hnot : ¬ OpenFlags.read &&& OpenFlags.write ≠ 0 := by decide
    rw [if_pos rfl]
    exact iff_of_false (by decide) fun h => hnot h.1
  · have hne : OpenFlags.write ≠ OpenFlags.read := by decide
    have hself : OpenFlags.write &&& OpenFlags.write ≠ 0 ∧
        OpenFlags.write &&& OpenFlags.read = 0 := by decide
    rw [if_neg hne, if_pos rfl, if_pos hcreat]
    refine iff_of_true ?_ ⟨hself.1, Or.inl hself.2⟩
    split_ifs <;> rfl
  · have hne : OpenFlags.read ||| OpenFlags.write ≠ OpenFlags.read ∧
        OpenFlags.read ||| OpenFlags.write ≠ OpenFlags.write := by decide
    have hself : (OpenFlags.read ||| OpenFlags.write) &&& OpenFlags.write ≠ 0 ∧
        (OpenFlags.read ||| OpenFlags.write) &&& OpenFlags.read ≠ 0 := by decide
    rw [if_neg hne.1, if_neg hne.2, if_pos rfl, or_iff_right hself.2, and_iff_right hself.1]
    split_ifs with happend htrunc
    · exact iff_of_true rfl (Or.inl happend)
    · exact iff_of_true rfl (Or.inr htrunc)
    · exact iff_of_false (by decide) (not_or.mpr ⟨happend, htrunc⟩)

theorem open_of_vacant {mode : OpenMode} {files after : Files} {place : List Text}
    (hvacant : files.Vacant place) (h : mode.open files place = some after) :
    (mode.creates = true → ∃ inode, after.entry place = some (.file inode) ∧
      after.content inode = []) ∧ (mode.creates = false → after = files) := by
  have hfile : files.fileAt place = none := by
    unfold FileSystem.fileAt
    rw [hvacant.2.1]
  cases mode with
  | rb => exact ⟨fun hcreates => (by cases hcreates), fun _ => (Option.some.inj h).symm⟩
  | rbPlus => simp [OpenMode.open, hfile] at h
  | ab | abPlus =>
      simp only [OpenMode.open, FileSystem.openOrCreate, hfile, dif_pos hvacant] at h
      obtain rfl := Option.some.inj h
      exact ⟨fun _ => ⟨_, Function.update_self .., Function.update_self ..⟩,
        fun hcreates => by cases hcreates⟩
  | wb | wbPlus =>
      simp only [OpenMode.open, FileSystem.openTruncated, FileSystem.openOrCreate, hfile,
        dif_pos hvacant] at h
      obtain rfl := Option.some.inj h
      exact ⟨fun _ => ⟨_, Function.update_self .., Function.update_self ..⟩,
        fun hcreates => by cases hcreates⟩

theorem open_of_file {mode : OpenMode} {files after : Files} {place : List Text} {inode : ℕ}
    (hentry : files.entry place = some (.file inode)) (h : mode.open files place = some after) :
    after = if mode.truncates = true then files.setContent inode [] else files := by
  have hfile := FileSystem.fileAt_eq_some_iff.mpr hentry
  cases mode with
  | rb => exact (Option.some.inj h).symm
  | rbPlus | ab | abPlus | wb | wbPlus =>
      simp [OpenMode.open, FileSystem.openTruncated, FileSystem.openOrCreate, hfile] at h
      exact h.symm

/-! ## When OPEN honours the flags -/

section Exact

variable {disk : Disk σ} {ctx : SftpContext} {s : Session σ} {msg : SftpClientMessage}
  {dir : Canonical} {base : Text}

theorem Session.Granted.opening (h : s.Granted disk ctx msg) :
    ∃ e full, s.opening disk.env ctx msg = some (e, full) := by
  obtain ⟨e, full, slot, hopening, -⟩ := h
  exact ⟨e, full, hopening⟩

/-- Nothing is there, and OPEN is not refused: a file is made if the mode
makes one, and otherwise nothing happens. -/
theorem honours_missing (hresolves : disk.Resolves s.world.env) (hfree : disk.OpensFreely)
    (hplaced : Placed disk ctx s.world.env msg.filename dir base) (htype : msg.type = .open)
    (hentry : (disk.files s.world.env).entry (dir.names ++ [base]) = none) :
    (msg.flags &&& OpenFlags.creat ≠ 0 →
      Opened (s.serve disk.env ctx msg).events ∧ ∃ inode,
        (disk.files (s.serve disk.env ctx msg).world.env).entry (dir.names ++ [base]) =
            some (.file inode) ∧
          (disk.files (s.serve disk.env ctx msg).world.env).content inode = []) ↔
      (msg.flags &&& OpenFlags.creat ≠ 0 →
        (sftpFlagsToMode msg.flags).1.creates = true ∧ s.Granted disk ctx msg) := by
  refine imp_congr_right fun hcreat => ?_
  have hvacant := hplaced.vacant hentry
  rw [opened_open_iff htype, open_files htype]
  constructor
  · rintro ⟨⟨⟨e, full, hopening, hfopen⟩, hgranted⟩, inode, hfile, -⟩
    refine ⟨?_, hgranted⟩
    obtain ⟨-, hfollow⟩ := opening_of_missing hresolves hplaced hentry hopening
    have hopen := files_of_fopen hfollow hfopen
    rw [opened_files hopening] at hopen
    rw [hopening] at hfile
    dsimp only at hfile
    by_contra hcreates
    rw [(open_of_vacant hvacant hopen).2 (by simpa using hcreates), hentry] at hfile
    cases hfile
  · rintro ⟨hcreates, hgranted⟩
    obtain ⟨e, full, hopening⟩ := hgranted.opening
    obtain ⟨-, hfollow⟩ := opening_of_missing hresolves hplaced hentry hopening
    have hfiles := opened_files hopening
    have hfopen := hfree e full (sftpFlagsToMode msg.flags).1 _ hfollow
      (Or.inr ⟨hcreates, by rwa [hfiles]⟩)
    have hopen := files_of_fopen hfollow hfopen
    rw [hfiles] at hopen
    refine ⟨⟨⟨e, full, hopening, hfopen⟩, hgranted⟩, ?_⟩
    rw [hopening]
    exact (open_of_vacant hvacant hopen).1 hcreates

/-- Without CREAT what is missing stays missing. -/
theorem missing_refused (hresolves : disk.Resolves s.world.env)
    (hplaced : Placed disk ctx s.world.env msg.filename dir base) (htype : msg.type = .open)
    (hentry : (disk.files s.world.env).entry (dir.names ++ [base]) = none)
    (hcreat : msg.flags &&& OpenFlags.creat = 0) :
    ¬ Opened (s.serve disk.env ctx msg).events ∧
      disk.files (s.serve disk.env ctx msg).world.env = disk.files s.world.env := by
  have hnone : s.opening disk.env ctx msg = none := by
    rw [Option.eq_none_iff_forall_ne_some]
    rintro ⟨e, full⟩ hopening
    exact (opening_of_missing hresolves hplaced hentry hopening).1 hcreat
  rw [opened_open_iff htype, open_files htype, hnone]
  exact ⟨by simp, rfl⟩

/-- An existing file is opened whenever OPEN is granted. -/
theorem opened_present_iff (hresolves : disk.Resolves s.world.env) (hfree : disk.OpensFreely)
    (hplaced : Placed disk ctx s.world.env msg.filename dir base) (htype : msg.type = .open)
    {inode : ℕ}
    (hentry : (disk.files s.world.env).entry (dir.names ++ [base]) = some (.file inode)) :
    Opened (s.serve disk.env ctx msg).events ↔ s.Granted disk ctx msg := by
  rw [opened_open_iff htype]
  refine ⟨fun h => h.2, fun hgranted => ⟨?_, hgranted⟩⟩
  obtain ⟨e, full, hopening⟩ := hgranted.opening
  have hfollow := opening_of_present hresolves hplaced hentry hopening
  refine ⟨e, full, hopening, hfree e full _ _ hfollow (Or.inl ?_)⟩
  rw [opened_files hopening, FileSystem.fileAt_eq_some_iff.mpr hentry]
  simp

/-- What OPEN leaves of an existing file. -/
theorem unchanged_present_iff (hresolves : disk.Resolves s.world.env) (hfree : disk.OpensFreely)
    (hplaced : Placed disk ctx s.world.env msg.filename dir base) (htype : msg.type = .open)
    {inode : ℕ}
    (hentry : (disk.files s.world.env).entry (dir.names ++ [base]) = some (.file inode)) :
    ((disk.files (s.serve disk.env ctx msg).world.env).entry (dir.names ++ [base]) =
        some (.file inode) ∧
      (disk.files (s.serve disk.env ctx msg).world.env).content inode =
        (disk.files s.world.env).content inode) ↔
      (s.opening disk.env ctx msg ≠ none → (sftpFlagsToMode msg.flags).1.truncates = true →
        (disk.files s.world.env).content inode = []) := by
  rw [open_files htype]
  cases hopening : s.opening disk.env ctx msg with
  | none => exact iff_of_true ⟨hentry, rfl⟩ fun h => absurd rfl h
  | some opening =>
      obtain ⟨e, full⟩ := opening
      have hfollow := opening_of_present hresolves hplaced hentry hopening
      have hfile : (disk.files e).fileAt (dir.names ++ [base]) ≠ none := by
        rw [opened_files hopening, FileSystem.fileAt_eq_some_iff.mpr hentry]
        simp
      have hopen := files_of_fopen hfollow
        (hfree e full (sftpFlagsToMode msg.flags).1 _ hfollow (Or.inl hfile))
      rw [opened_files hopening] at hopen
      dsimp only
      rw [open_of_file hentry hopen]
      by_cases htruncates : (sftpFlagsToMode msg.flags).1.truncates = true
      · rw [if_pos htruncates]
        have hempty : ((disk.files s.world.env).setContent inode []).content inode = [] :=
          Function.update_self ..
        rw [hempty]
        exact ⟨fun h _ _ => h.2.symm, fun h => ⟨hentry, (h (by simp) htruncates).symm⟩⟩
      · rw [if_neg htruncates]
        exact iff_of_true ⟨hentry, rfl⟩ fun _ h => absurd h htruncates

end Exact

/-- OPEN honours CREAT and EXCL exactly when CREAT on a missing file comes
with WRITE and an access that makes files, when CREAT and EXCL do not meet
an existing file, and when what is to be opened is granted. -/
theorem honours_iff {disk : Disk σ} (hfree : disk.OpensFreely) {ctx : SftpContext}
    {s : Session σ} (hresolves : disk.Resolves s.world.env) {msg : SftpClientMessage}
    (htype : msg.type = .open) {dir : Canonical} {base : Text}
    (hplaced : Placed disk ctx s.world.env msg.filename dir base) :
    Honours disk ctx s msg (dir.names ++ [base]) ↔
      Honourable disk ctx s msg (dir.names ++ [base]) := by
  constructor
  · intro h
    refine ⟨fun hentry hcreat => ?_, fun inode hentry hcreat hexcl => ?_,
      fun inode hentry hflags => ?_⟩
    · obtain ⟨hcreates, hgranted⟩ :=
        (honours_missing hresolves hfree hplaced htype hentry).mp (h.created hentry) hcreat
      obtain ⟨hwrite, hmode⟩ := (creates_iff hcreat).mp hcreates
      exact ⟨hwrite, hmode, hgranted⟩
    · obtain ⟨hnot, hunchanged⟩ := h.exclusive inode hentry hcreat hexcl
      rw [opened_present_iff hresolves hfree hplaced htype hentry] at hnot
      exact ⟨hnot, (unchanged_present_iff hresolves hfree hplaced htype hentry).mp hunchanged⟩
    · exact (opened_present_iff hresolves hfree hplaced htype hentry).mp
        (h.opened inode hentry hflags)
  · intro h
    refine ⟨fun hentry => ?_, fun hentry hcreat => ?_, fun inode hentry hcreat hexcl => ?_,
      fun inode hentry hflags => ?_⟩
    · apply (honours_missing hresolves hfree hplaced htype hentry).mpr
      intro hcreat
      obtain ⟨hwrite, hmode, hgranted⟩ := h.creates hentry hcreat
      exact ⟨(creates_iff hcreat).mpr ⟨hwrite, hmode⟩, hgranted⟩
    · exact missing_refused hresolves hplaced htype hentry hcreat
    · obtain ⟨hnot, hcontent⟩ := h.exclusive inode hentry hcreat hexcl
      rw [opened_present_iff hresolves hfree hplaced htype hentry]
      exact ⟨hnot, (unchanged_present_iff hresolves hfree hplaced htype hentry).mpr hcontent⟩
    · exact (opened_present_iff hresolves hfree hplaced htype hentry).mpr
        (h.granted inode hentry hflags)

/-! ## What is granted -/

section Granted

variable {disk : Disk σ} {ctx : SftpContext} {s : Session σ} {msg : SftpClientMessage}
  {dir : Canonical} {base : Text}

/-- What OPEN resolves, where nothing is or a file. -/
theorem exists_resolved (hresolves : disk.Resolves s.world.env)
    (hplaced : Placed disk ctx s.world.env msg.filename dir base)
    (hthere : msg.flags &&& OpenFlags.creat ≠ 0 ∧
        (disk.files s.world.env).entry (dir.names ++ [base]) = none ∨
      ∃ inode, (disk.files s.world.env).entry (dir.names ++ [base]) = some (.file inode)) :
    ∃ full, resolvedText (disk.env.realpath s.world.env) (combinedPath ctx.root msg.filename)
      (msg.flags &&& OpenFlags.creat == 0) = some full ∧ ∀ root : Canonical,
        root.names <+: dir.names → root.text <+: full := by
  have hbelow : ∀ root p : Canonical, root.names <+: p.names → root.text <+: p.text :=
    fun root p hp => (absolute_prefix_iff_or (fun n hn => (root.isName n hn).sep_notMem)
      (fun n hn => (root.isName n hn).ne_nil) fun n hn => (p.isName n hn).sep_notMem).mpr
        (Or.inl hp)
  rcases hthere with ⟨hcreat, hentry⟩ | ⟨inode, hentry⟩
  · refine ⟨dir.text ++ '/' :: base, ?_, fun root hroot =>
      (hbelow root dir hroot).trans (List.prefix_append _ _)⟩
    have hnone := hresolves.missing _ dir base hplaced.parent hplaced.isName hentry
    have hmissing : (msg.flags &&& OpenFlags.creat == 0) = false := by simpa using hcreat
    rw [← hplaced.combined] at hnone
    rw [resolvedText, hnone, hmissing, hplaced.parent, hplaced.base_eq]
    rfl
  · obtain ⟨found, hfound, hnames⟩ :=
      hresolves.present _ dir base inode hplaced.parent hplaced.isName hentry
    rw [← hplaced.combined] at hfound
    refine ⟨found.text, by rw [resolvedText, hfound], fun root hroot => hbelow root found ?_⟩
    rw [hnames]
    exact hroot.trans (List.prefix_append _ _)

/-- With full permission, a canonical root, a free slot and reply functions
that succeed, OPEN is granted where CREAT is set or a file is there. -/
theorem granted_of_canonical (hdelivers : disk.env.Delivers) (hperm : ctx.perm = SftpPermission.all)
    {root : Canonical} (hroot : ctx.root = root.text) (hinside : root.names <+: dir.names)
    (hresolves : disk.Resolves s.world.env)
    (hplaced : Placed disk ctx s.world.env msg.filename dir base)
    (hthere : msg.flags &&& OpenFlags.creat ≠ 0 ∧
        (disk.files s.world.env).entry (dir.names ++ [base]) = none ∨
      ∃ inode, (disk.files s.world.env).entry (dir.names ++ [base]) = some (.file inode))
    (hslot : disk.env.slots.choose s.world.table ≠ none) : s.Granted disk ctx msg := by
  obtain ⟨full, hfull, hprefix⟩ := exists_resolved hresolves hplaced hthere
  have hbegins := hprefix root hinside
  have hne : full ≠ [] := by
    rintro rfl
    exact absolute_ne_nil '/' root.names (List.prefix_nil.mp hbegins)
  have hresolved : resolvePath (disk.env.realpath s.world.env) ctx.root msg.filename
      (msg.flags &&& OpenFlags.creat == 0) = full := by
    refine (resolvePath_eq_iff hne).mpr ⟨?_, hfull, ?_⟩
    · rw [hroot]
      exact absolute_ne_nil _ _
    · rw [hroot, hasCaseInsensitivePrefix_iff]
      exact hbegins.map _
  have hdenied : openDenied ctx.perm msg.flags = false := by
    have hboth : canWrite SftpPermission.all = true ∧ canRead SftpPermission.all = true := by decide
    rw [hperm, openDenied, hboth.1, hboth.2]
    simp
  have hopening : s.opening disk.env ctx msg =
      some ((disk.env.answer s.world.env .realpath).2, full) := by
    have hresolvedIn : resolvedIn disk.env ctx s.world.env msg.filename
        (msg.flags &&& OpenFlags.creat == 0) =
          some ((disk.env.answer s.world.env .realpath).2, full) := by
      unfold resolvedIn
      change (if resolvePath (disk.env.realpath s.world.env) ctx.root msg.filename
        (msg.flags &&& OpenFlags.creat == 0) = [] then none else some (_, resolvePath
          (disk.env.realpath s.world.env) ctx.root msg.filename
            (msg.flags &&& OpenFlags.creat == 0))) = _
      rw [hresolved, if_neg hne]
    rw [Session.opening, hdenied, hresolvedIn]
    rfl
  obtain ⟨slot, hslot⟩ := Option.ne_none_iff_exists'.mp hslot
  exact ⟨_, full, slot, hopening, hslot, hdelivers _ _⟩

end Granted

/-! ## bob's files -/

theorem treeWalk_append (objects : List (List Text)) (here : List Text) (ms ns : List (Move Char)) :
    treeWalk objects here (ms ++ ns) =
      (treeWalk objects here ms).bind fun there => treeWalk objects there ns := by
  induction ms generalizing here with
  | nil => rfl
  | cons m ms ih =>
      cases m with
      | stay => exact ih here
      | up => exact ih here.dropLast
      | down name =>
          rw [List.cons_append, treeWalk, treeWalk]
          split
          · exact ih (here ++ [name])
          · rfl

theorem treeRealpath_eq_some_iff {objects : List (List Text)} {path : Text} {found : Canonical} :
    treeRealpath objects path = some found ↔
      path.head? = some '/' ∧ treeWalk objects [] (moves '/' '.' path) = some found.names := by
  unfold treeRealpath
  by_cases hhead : path.head? = some '/'
  · rw [if_pos hhead, and_iff_right hhead, Option.bind_eq_some_iff]
    constructor
    · rintro ⟨names, hwalk, hfound⟩
      split at hfound
      · obtain rfl := Option.some.inj hfound
        exact hwalk
      · cases hfound
    · intro hwalk
      exact ⟨found.names, hwalk, dif_pos found.isName⟩
  · rw [if_neg hhead]
    exact iff_of_false (by simp) fun h => hhead h.1

/-- A name in a directory that the walk has reached. -/
theorem treeRealpath_append {objects : List (List Text)} {path base : Text} {dir : Canonical}
    (hdir : treeRealpath objects path = some dir) (hbase : IsName '/' '.' base) :
    (treeRealpath objects (path ++ '/' :: base)).map NormalPath.names =
      if dir.names ++ [base] ∈ objects then some (dir.names ++ [base]) else none := by
  obtain ⟨hhead, hwalk⟩ := treeRealpath_eq_some_iff.mp hdir
  have hhead' : (path ++ '/' :: base).head? = some '/' := by
    rw [List.head?_append, hhead]
    rfl
  have hwalk' : treeWalk objects [] (moves '/' '.' (path ++ '/' :: base)) =
      if dir.names ++ [base] ∈ objects then some (dir.names ++ [base]) else none := by
    rw [moves_append, moves_of_notMem _ hbase.sep_notMem, move_of_isName hbase, treeWalk_append,
      hwalk, Option.bind_some, treeWalk]
    rfl
  by_cases hmem : dir.names ++ [base] ∈ objects
  · rw [if_pos hmem] at hwalk' ⊢
    have hisName : ∀ n ∈ dir.names ++ [base], IsName '/' '.' n := by
      intro n hn
      rcases List.mem_append.mp hn with hn | hn
      · exact dir.isName n hn
      · rwa [List.mem_singleton.mp hn]
    have hfound : treeRealpath objects (path ++ '/' :: base) = some ⟨_, hisName⟩ :=
      treeRealpath_eq_some_iff.mpr ⟨hhead', hwalk'⟩
    rw [hfound]
    rfl
  · rw [if_neg hmem] at hwalk' ⊢
    rw [Option.map_eq_none_iff, Option.eq_none_iff_forall_ne_some]
    intro found hfound
    have hreached := (treeRealpath_eq_some_iff.mp hfound).2
    rw [hwalk'] at hreached
    cases hreached

theorem resolves_plainDisk {objects : List (List Text)} {files : Files}
    (h : ∀ path name, path ++ [name] ∈ objects ↔ files.entry (path ++ [name]) ≠ none) :
    (plainDisk (treeRealpath objects)).Resolves files := by
  refine ⟨fun text dir base hdir hbase hentry => ?_,
    fun text dir base inode hdir hbase hentry => ?_, fun text found _ => ?_,
    fun text dir base _ hbase _ => ?_⟩
  · have hmem : dir.names ++ [base] ∉ objects := fun hmem => (h _ _).mp hmem hentry
    have hnames := treeRealpath_append hdir hbase
    rw [if_neg hmem, Option.map_eq_none_iff] at hnames
    exact hnames
  · have hmem : dir.names ++ [base] ∈ objects := by
      rw [h]
      simp only [plainDisk, id] at hentry
      simp [hentry]
    have hnames := treeRealpath_append hdir hbase
    rw [if_pos hmem, Option.map_eq_some_iff] at hnames
    exact hnames
  · exact congrArg some (denoted_text found)
  · have hdenoted : denoted (dir.text ++ '/' :: base) = settle dir.names [move '.' base] :=
      Location.denoted_text ⟨dir, some base, by simpa using hbase.sep_notMem⟩
    rw [move_of_isName hbase] at hdenoted
    exact congrArg some hdenoted

theorem opensFreely_plainDisk (realpath : Realpath) : (plainDisk realpath).OpensFreely := by
  intro files path mode place hfollow hallows
  obtain rfl := Option.some.inj hfollow
  have hopen : mode.open files (denoted path) ≠ none := by
    rcases hallows with hfile | ⟨hcreates, hvacant⟩
    · obtain ⟨inode, hinode⟩ := Option.ne_none_iff_exists'.mp hfile
      have hinode' : files.fileAt (denoted path) = some inode := hinode
      cases mode <;>
        simp [OpenMode.open, FileSystem.openTruncated, FileSystem.openOrCreate, hinode']
    · have hvacant' : files.Vacant (denoted path) := hvacant
      have hfile : files.fileAt (denoted path) = none := by
        unfold FileSystem.fileAt
        rw [hvacant'.2.1]
      cases mode <;>
        simp_all [OpenMode.open, OpenMode.creates, FileSystem.openTruncated,
          FileSystem.openOrCreate]
  obtain ⟨after, hafter⟩ := Option.ne_none_iff_exists'.mp hopen
  simp [plainDisk, plainAnswer, hafter]

theorem resolves_bobDisk : bobDisk.Resolves bobFiles := by
  apply resolves_plainDisk
  intro path name
  have hne : path ++ [name] ≠ [] := by simp
  generalize path ++ [name] = place at hne
  simp only [bobFiles, hne, false_or, List.mem_cons, List.not_mem_nil, or_false]
  split_ifs with hdirectory hfile
  · exact iff_of_true (hdirectory.imp_right Or.inl) (by simp)
  · exact iff_of_true (Or.inr (Or.inr hfile)) (by simp)
  · refine iff_of_false ?_ (by simp)
    rintro (h | h | h)
    · exact hdirectory (Or.inl h)
    · exact hdirectory (Or.inr h)
    · exact hfile h

theorem opensFreely_bobDisk : bobDisk.OpensFreely := opensFreely_plainDisk _

theorem placed_bob {path base : Text}
    (hdir : dirAndBase (combinedPath bobContext.root path) = (bobRoot.text, base))
    (hbase : IsName '/' '.' base) :
    Placed bobDisk bobContext bobFiles path bobRoot base where
  parent := by
    rw [hdir]
    rfl
  base_eq := by rw [hdir]
  isName := hbase
  directory := rfl
  inside := ⟨bobRoot, rfl, List.prefix_rfl⟩

theorem honours_iff_new :
    Honours bobDisk bobContext (Session.start bobFiles)
      { type := .open, filename := "new", flags := OpenFlags.write ||| OpenFlags.creat }
      (bobRoot.names ++ [txt "new"]) := by
  have hplaced : Placed bobDisk bobContext bobFiles "new" bobRoot "new" :=
    placed_bob (by decide +kernel) (by decide)
  have hnone : bobFiles.entry (bobRoot.names ++ [txt "new"]) = none := rfl
  refine (honours_iff opensFreely_bobDisk (s := Session.start bobFiles) resolves_bobDisk rfl
    hplaced).mpr ⟨fun _ _ => ⟨by decide, Or.inl (by decide), ?_⟩, fun inode h => ?_,
      fun inode h => ?_⟩
  · exact granted_of_canonical (fun _ _ => rfl) rfl rfl List.prefix_rfl resolves_bobDisk hplaced
      (Or.inl ⟨by decide, hnone⟩) (by decide)
  · cases h
  · cases h

/-- bob's notes are opened with CREAT and EXCL. -/
theorem excl_ignored :
    ¬ ∀ (disk : Disk Files), disk.OpensFreely → ∀ (ctx : SftpContext),
      ctx.perm = SftpPermission.all → ∀ s : Session Files, disk.Resolves s.world.env →
        ∀ msg : SftpClientMessage, msg.type = .open →
          msg.flags &&& (OpenFlags.read ||| OpenFlags.write) ≠ 0 → ∀ dir base,
            Placed disk ctx s.world.env msg.filename dir base →
              Honours disk ctx s msg (dir.names ++ [base]) := by
  intro h
  have hplaced : Placed bobDisk bobContext bobFiles "notes" bobRoot "notes" :=
    placed_bob (by decide +kernel) (by decide)
  have hfile : bobFiles.entry (bobRoot.names ++ [txt "notes"]) = some (.file 0) := rfl
  let msg : SftpClientMessage :=
    { type := .open
      filename := "notes"
      flags := OpenFlags.read ||| OpenFlags.creat ||| OpenFlags.excl }
  have hhonours := h bobDisk opensFreely_bobDisk bobContext rfl (Session.start bobFiles)
    resolves_bobDisk msg rfl (by decide) bobRoot "notes" hplaced
  refine (hhonours.exclusive 0 hfile (by decide) (by decide)).1 ?_
  apply (opened_present_iff (s := Session.start bobFiles) resolves_bobDisk opensFreely_bobDisk
    hplaced rfl hfile).mpr
  exact granted_of_canonical (fun _ _ => rfl) rfl rfl List.prefix_rfl resolves_bobDisk hplaced
    (Or.inr ⟨0, hfile⟩) (by decide)

end MockServices.Sftp
