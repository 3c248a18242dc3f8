import Mathlib.Data.BitVec
import MockServices.Foundations.Program
import MockServices.Foundations.SlotTable
import MockServices.Sftp.PathResolution

/-!
# What the SFTP handlers call

A handler calls the operating system, libssh, the heap and the activity
log. The operating system and the reply functions answer as an
environment decides; the handle table of libssh and the heap objects
behind it are part of the session's world. Using an object after its
release, or as an object of the other kind, is a fault.
-/

namespace MockServices.Sftp

open Foundations

abbrev Bytes := List UInt8

/-- `enum class sftp_permission : int`. -/
abbrev SftpPermission := BitVec 32

namespace SftpPermission

def none : SftpPermission := 0
def read : SftpPermission := 1
def write : SftpPermission := 2
def all : SftpPermission := read ||| write

end SftpPermission

/-- The flags of an OPEN message. -/
abbrev OpenFlags := BitVec 32

namespace OpenFlags

def read : OpenFlags := 0x01
def write : OpenFlags := 0x02
def append : OpenFlags := 0x04
def creat : OpenFlags := 0x08
def trunc : OpenFlags := 0x10

end OpenFlags

/-- The mode strings that the source gives to `fopen`. -/
inductive OpenMode where
  | rb
  | wb
  | ab
  | rbPlus
  | wbPlus
  | abPlus
  deriving DecidableEq

def OpenMode.readable : OpenMode → Bool
  | .rb | .rbPlus | .wbPlus | .abPlus => true
  | .wb | .ab => false

def OpenMode.writable : OpenMode → Bool
  | .rb => false
  | _ => true

/-- A `FILE*` with the mode it was opened with. -/
structure FilePtr where
  id : ℕ
  mode : OpenMode
  deriving DecidableEq

/-- A `DIR*`. -/
abbrev DirPtr := ℕ

structure FileStat where
  size : BitVec 64
  mode : BitVec 32
  mtime : ℤ
  atime : ℤ

inductive AttrType where
  | regular
  | directory
  | unknown
  deriving DecidableEq

/-- The fields that `make_attr` sets. -/
structure SftpAttributes where
  name : Text
  size : BitVec 64
  permissions : BitVec 32
  atime : BitVec 32
  mtime : BitVec 32
  flags : BitVec 32
  type : AttrType
  deriving DecidableEq

/-- The `SSH_FX_*` codes that the handlers send. -/
inductive StatusCode where
  | ok
  | eof
  | noSuchFile
  | permissionDenied
  | failure
  | invalidHandle
  | noSuchPath
  | opUnsupported
  deriving DecidableEq

/-- A handle string names one of the 256 slots of the session's table. -/
abbrev Slot := Fin 256

inductive Reply where
  | status (code : StatusCode) (message : Option Text)
  | handle (slot : Slot)
  | data (bytes : Bytes)
  | name (name : Text) (attr : Option SftpAttributes)
  | attr (attr : SftpAttributes)
  deriving DecidableEq

/-! ## The operating system and the reply functions -/

inductive OsCall where
  | realpath
  | fopen (path : Text) (mode : OpenMode)
  | fseek (fp : FilePtr) (offset : ℤ)
  | fread (fp : FilePtr) (size : ℕ)
  | fwrite (fp : FilePtr) (data : Bytes)
  | fflush (fp : FilePtr)
  | fclose (fp : FilePtr)
  | opendir (path : Text)
  | entries (dir : Option DirPtr)
  | setEntries (dir : Option DirPtr) (rest : List Text)
  | closedir (dir : DirPtr)
  | stat (path : Text)
  | mkdir (path : Text)
  | rmdir (path : Text)
  | unlink (path : Text)
  | rename (source target : Text)
  | calloc
  | reply (reply : Reply)

/-- `realpath` answers for every text in the current state of the file
system. `entries` and `setEntries` are the entries that a directory
stream has still to give; `readdir` takes the first of them. Nothing is
read from a stream that was not opened for reading, or written to one
that was not opened for writing. -/
@[reducible] def OsCall.Answer : OsCall → Type
  | realpath => Realpath
  | fopen _ _ => Option ℕ
  | fseek _ _ => Bool
  | fread fp size => { b : Bytes // b.length ≤ size ∧ (fp.mode.readable = false → b = []) }
  | fwrite fp data => { n : ℕ // n ≤ data.length ∧ (fp.mode.writable = false → n = 0) }
  | opendir _ => Option DirPtr
  | entries _ => List Text
  | stat _ => Option FileStat
  | mkdir _ | rmdir _ | unlink _ | rename _ _ => Bool
  | calloc => Bool
  | reply _ => Bool
  | fflush _ | fclose _ | setEntries _ _ | closedir _ => Unit

/-! ## The heap -/

inductive HandleKind where
  | file
  | directory
  deriving DecidableEq

structure FileData where
  fp : Option FilePtr
  path : Text
  deriving DecidableEq

structure DirData where
  path : Text
  dir : Option DirPtr
  deriving DecidableEq

inductive HandleData where
  | file (fd : FileData)
  | directory (dd : DirData)
  deriving DecidableEq

def HandleData.kind : HandleData → HandleKind
  | .file _ => .file
  | .directory _ => .directory

/-- The address of a heap object. -/
abbrev ObjectId := ℕ

structure Cell where
  data : HandleData
  released : Bool
  deriving DecidableEq

/-- What `sftp_handle_remove` is given: an object or a handle string. No
object has the address of a handle string. -/
inductive Pointer where
  | object (info : ObjectId)
  | string
  deriving DecidableEq

/-- What is undefined about a use of an object. -/
structure Fault where
  released : Bool
  wrongKind : Bool
  deriving DecidableEq

inductive Call where
  | os (call : OsCall)
  | logActivity (user operation path result : Text)
  | handleAlloc (info : ObjectId)
  | handle (handle : Option Slot)
  | handleRemove (pointer : Pointer)
  | new (data : HandleData)
  | store (info : ObjectId) (data : HandleData)
  | kindOf (info : ObjectId)
  | file (info : ObjectId)
  | dir (info : ObjectId)
  | delete (kind : HandleKind) (info : ObjectId)

@[reducible] def Call.Answer : Call → Type
  | os call => call.Answer
  | handleAlloc _ => Option Slot
  | handle _ => Option ObjectId
  | new _ => ObjectId
  | kindOf _ => HandleKind
  | file _ => FileData
  | dir _ => DirData
  | logActivity _ _ _ _ | handleRemove _ | store _ _ | delete _ _ => Unit

/-- The operating system and the part of libssh that is not under `World`. -/
structure Environment (σ : Type) where
  answer : σ → (call : OsCall) → call.Answer × σ
  slots : SlotChoice 256 ObjectId

structure World (σ : Type) where
  env : σ
  table : SlotTable 256 ObjectId
  objects : List Cell

variable {σ : Type}

/-- The object at the address, unless it has been released. -/
def World.live (w : World σ) (info : ObjectId) : Option HandleData :=
  match w.objects[info]? with
  | some ⟨data, false⟩ => some data
  | _ => none

/-- What is undefined about using the object as one of the given kind. -/
def World.misuse (w : World σ) (kind : HandleKind) (info : ObjectId) : Fault :=
  match w.objects[info]? with
  | none => ⟨true, false⟩
  | some cell => ⟨cell.released, cell.data.kind ≠ kind⟩

def World.set (w : World σ) (info : ObjectId) (cell : Cell) : World σ :=
  { w with objects := w.objects.set info cell }

def perform (env : Environment σ) (w : World σ) : (c : Call) → Except Fault (c.Answer × World σ)
  | .os call =>
      let (answer, after) := env.answer w.env call
      .ok (answer, { w with env := after })
  | .logActivity _ _ _ _ => .ok ((), w)
  | .handleAlloc info =>
      match env.slots.choose w.table with
      | none => .ok (none, w)
      | some slot => .ok (some slot, { w with table := w.table.put slot info })
  | .handle handle => .ok (handle.bind w.table, w)
  | .handleRemove pointer =>
      .ok ((), { w with
        table := fun slot => if (w.table slot).map .object = some pointer then none
          else w.table slot })
  | .new data => .ok (w.objects.length, { w with objects := w.objects ++ [⟨data, false⟩] })
  | .store info data =>
      if (w.live info).map HandleData.kind = some data.kind then .ok ((), w.set info ⟨data, false⟩)
      else .error (w.misuse data.kind info)
  | .kindOf info =>
      match w.live info with
      | some data => .ok (data.kind, w)
      | none => .error ⟨true, false⟩
  | .file info =>
      match w.live info with
      | some (.file fd) => .ok (fd, w)
      | _ => .error (w.misuse .file info)
  | .dir info =>
      match w.live info with
      | some (.directory dd) => .ok (dd, w)
      | _ => .error (w.misuse .directory info)
  | .delete kind info =>
      match w.live info with
      | some data =>
          if data.kind = kind then .ok ((), w.set info ⟨data, true⟩)
          else .error (w.misuse kind info)
      | none => .error (w.misuse kind info)

/-! ## One call at a time -/

section Calls

variable {env : Environment σ} {w w' : World σ} {info : ObjectId}

@[simp] theorem perform_os (c : OsCall) :
    perform env w (.os c) =
      .ok ((env.answer w.env c).1, { w with env := (env.answer w.env c).2 }) := rfl

@[simp] theorem perform_logActivity (user operation path result : Text) :
    perform env w (.logActivity user operation path result) = .ok ((), w) := rfl

@[simp] theorem perform_handle (handle : Option Slot) :
    perform env w (.handle handle) = .ok (handle.bind w.table, w) := rfl

@[simp] theorem perform_new (data : HandleData) :
    perform env w (.new data) =
      .ok (w.objects.length, { w with objects := w.objects ++ [⟨data, false⟩] }) := rfl

theorem perform_handleAlloc :
    perform env w (.handleAlloc info) =
      match env.slots.choose w.table with
      | none => .ok (none, w)
      | some slot => .ok (some slot, { w with table := w.table.put slot info }) := rfl

theorem perform_store (data : HandleData) :
    perform env w (.store info data) =
      if (w.live info).map HandleData.kind = some data.kind then
        .ok ((), w.set info ⟨data, false⟩)
      else .error (w.misuse data.kind info) := rfl

theorem perform_kindOf :
    perform env w (.kindOf info) =
      match w.live info with
      | some data => .ok (data.kind, w)
      | none => .error ⟨true, false⟩ := rfl

theorem perform_file :
    perform env w (.file info) =
      match w.live info with
      | some (.file fd) => .ok (fd, w)
      | _ => .error (w.misuse .file info) := rfl

theorem perform_dir :
    perform env w (.dir info) =
      match w.live info with
      | some (.directory dd) => .ok (dd, w)
      | _ => .error (w.misuse .directory info) := rfl

theorem perform_delete (kind : HandleKind) :
    perform env w (.delete kind info) =
      match w.live info with
      | some data =>
          if data.kind = kind then .ok ((), w.set info ⟨data, true⟩)
          else .error (w.misuse kind info)
      | none => .error (w.misuse kind info) := rfl

/-- The handle string is no object's address. -/
@[simp] theorem perform_handleRemove_string :
    perform env w (.handleRemove .string) = .ok ((), w) := by
  have htable : (fun slot => if (w.table slot).map Pointer.object = some .string then none
      else w.table slot) = w.table := by
    funext slot
    cases w.table slot <;> simp
  change Except.ok ((), { w with table := _ }) = _
  rw [htable]

theorem live_eq_some_iff {data : HandleData} :
    w.live info = some data ↔ w.objects[info]? = some ⟨data, false⟩ := by
  unfold World.live
  split
  · rename_i stored hcell
    simp [hcell]
  · rename_i hcell
    constructor
    · simp
    · exact fun h => absurd h (hcell data)

theorem perform_kindOf_eq_ok_iff {kind : HandleKind} :
    perform env w (.kindOf info) = .ok (kind, w') ↔
      ∃ data, w.live info = some data ∧ data.kind = kind ∧ w' = w := by
  rw [perform_kindOf]
  constructor
  · intro h
    split at h
    · next data hlive =>
        cases h
        exact ⟨data, hlive, rfl, rfl⟩
    · cases h
  · rintro ⟨data, hlive, rfl, rfl⟩
    rw [hlive]

theorem perform_file_eq_ok_iff {fd : FileData} :
    perform env w (.file info) = .ok (fd, w') ↔ w.live info = some (.file fd) ∧ w' = w := by
  rw [perform_file]
  constructor
  · intro h
    split at h
    · next hlive =>
        cases h
        exact ⟨hlive, rfl⟩
    · cases h
  · rintro ⟨hlive, rfl⟩
    rw [hlive]

theorem perform_dir_eq_ok_iff {dd : DirData} :
    perform env w (.dir info) = .ok (dd, w') ↔ w.live info = some (.directory dd) ∧ w' = w := by
  rw [perform_dir]
  constructor
  · intro h
    split at h
    · next hlive =>
        cases h
        exact ⟨hlive, rfl⟩
    · cases h
  · rintro ⟨hlive, rfl⟩
    rw [hlive]

theorem perform_store_eq_ok_iff {data : HandleData} :
    perform env w (.store info data) = .ok ((), w') ↔
      (w.live info).map HandleData.kind = some data.kind ∧ w' = w.set info ⟨data, false⟩ := by
  rw [perform_store]
  constructor
  · intro h
    split at h
    · next hkind =>
        cases h
        exact ⟨hkind, rfl⟩
    · cases h
  · rintro ⟨hkind, rfl⟩
    rw [if_pos hkind]

theorem perform_delete_eq_ok_iff {kind : HandleKind} :
    perform env w (.delete kind info) = .ok ((), w') ↔
      ∃ data, w.live info = some data ∧ data.kind = kind ∧ w' = w.set info ⟨data, true⟩ := by
  rw [perform_delete]
  constructor
  · intro h
    split at h
    · next data hlive =>
        split at h
        · next hkind =>
            cases h
            exact ⟨data, hlive, hkind, rfl⟩
        · cases h
    · cases h
  · rintro ⟨data, hlive, hkind, rfl⟩
    simp only [hlive, if_pos hkind]

/-- Only a call to the system changes the system. -/
theorem env_of_perform {c : Call} {answer : c.Answer} (h : perform env w c = .ok (answer, w')) :
    w'.env = match c with
      | .os c => (env.answer w.env c).2
      | _ => w.env := by
  cases c with
  | os c =>
      obtain ⟨-, rfl⟩ := Prod.mk.inj (Except.ok.inj h)
      rfl
  | logActivity | handle | handleRemove | new =>
      obtain ⟨-, rfl⟩ := Prod.mk.inj (Except.ok.inj h)
      rfl
  | handleAlloc info =>
      rw [perform_handleAlloc] at h
      split at h <;> obtain ⟨-, rfl⟩ := Prod.mk.inj (Except.ok.inj h) <;> rfl
  | store info data =>
      obtain ⟨-, rfl⟩ := perform_store_eq_ok_iff.mp h
      rfl
  | kindOf info =>
      obtain ⟨data, -, -, rfl⟩ := perform_kindOf_eq_ok_iff.mp h
      rfl
  | file info =>
      obtain ⟨-, rfl⟩ := perform_file_eq_ok_iff.mp h
      rfl
  | dir info =>
      obtain ⟨-, rfl⟩ := perform_dir_eq_ok_iff.mp h
      rfl
  | delete kind info =>
      obtain ⟨data, -, -, rfl⟩ := perform_delete_eq_ok_iff.mp h
      rfl

end Calls

end MockServices.Sftp
