import MockServices.Foundations.Hexadecimal
import MockServices.Foundations.Run
import MockServices.Text

/-!
# The names of the temporary directories

`unique_id` writes the process, the time and a counter one after the other
in hexadecimal, and the constructor of `TempDir` puts the text behind a
prefix. Nothing separates the three numbers, but as long as the times have
eight digits the last two are told apart, and the counter does the rest.
-/

namespace MockServices.Detail

open Foundations

/-- `unique_id()`, for what `++counter` has come to. -/
def uniqueId (pid timestamp count : UInt32) : Text :=
  hex pid.toNat ++ hex timestamp.toNat ++ hex count.toNat

/-- A `name_prefix` that ends with a mark and names no directory. Both
servers have such a one. -/
structure NamePrefix where
  front : Text
  mark : Char
  isHexDigit_mark : isHexDigit mark = false
  flat : '/' ∉ front ++ [mark]

def NamePrefix.text (namePrefix : NamePrefix) : Text := namePrefix.front ++ [namePrefix.mark]

def ftpPrefix : NamePrefix := ⟨"mock-services", '-', by decide, by decide⟩

def sftpPrefix : NamePrefix := ⟨"mock-services-sftp", '-', by decide, by decide⟩

/-- The directory that the constructor begins with, for what `getenv` finds. -/
def tempBase (tmpdir : Option Text) : Text :=
  let dir : Text := match tmpdir with
    | some (c :: rest) => c :: rest
    | _ => "/tmp"
  if dir ≠ [] ∧ dir.getLast? ≠ some '/' ∧ dir.getLast? ≠ some '\\' then dir ++ ['/'] else dir

/-- A time that `std::time` has returned between 1978 and 2106. -/
structure Clock where
  time : UInt32
  late : 2 ^ 28 ≤ time.toNat

/-- A `TempDir` that has been constructed. -/
structure TempPath where
  tmpdir : Option Text
  namePrefix : NamePrefix
  clock : Clock
  count : UInt32

/-- A process that constructs temporary directories. -/
structure Process where
  pid : UInt32
  counter : UInt32 := 0
  /-- How often `unique_id` has been called. -/
  calls : ℕ := 0
  made : List TempPath := []

/-- The constructor of `TempDir`. It throws when `mkdir` fails. -/
structure MakeTempDir where
  tmpdir : Option Text
  namePrefix : NamePrefix
  clock : Clock
  mkdir : Bool

namespace Process

def next (s : Process) (call : MakeTempDir) : Process :=
  let count := s.counter + 1
  { s with
    counter := count
    calls := s.calls + 1
    made := if call.mkdir then ⟨call.tmpdir, call.namePrefix, call.clock, count⟩ :: s.made
      else s.made }

def step (s : Process) (call : MakeTempDir) : Option Process := some (s.next call)

/-- `path_` -/
def path (s : Process) (made : TempPath) : Text :=
  tempBase made.tmpdir ++ made.namePrefix.text ++ uniqueId s.pid made.clock.time made.count

/-- The two directories are not one, and, in the same place, none is in the other. -/
def Apart (s : Process) (one other : TempPath) : Prop :=
  s.path one ≠ s.path other ∧
    (one.tmpdir = other.tmpdir → ¬ s.path one ++ ['/'] <+: s.path other ∧
      ¬ s.path other ++ ['/'] <+: s.path one)

end Process

/-! ## One name -/

section Names

variable {pid timestamp timestamp' count count' : UInt32}

theorem isHexDigit_uniqueId {c : Char} (h : c ∈ uniqueId pid timestamp count) :
    isHexDigit c = true := by
  rcases List.mem_append.mp h with h | h
  · rcases List.mem_append.mp h with h | h
    · exact isHexDigit_of_mem h
    · exact isHexDigit_of_mem h
  · exact isHexDigit_of_mem h

theorem length_hex_clock (clock : Clock) : (hex clock.time.toNat).length = 8 :=
  length_hex clock.late clock.time.toNat_lt

/-- Times of one length do not run into the counters. -/
theorem count_of_uniqueId {clock clock' : Clock}
    (h : uniqueId pid clock.time count = uniqueId pid clock'.time count') : count = count' := by
  rw [uniqueId, uniqueId, List.append_assoc, List.append_assoc] at h
  have hlength : (hex clock.time.toNat).length = (hex clock'.time.toNat).length :=
    (length_hex_clock clock).trans (length_hex_clock clock').symm
  have hcount := (List.append_inj (List.append_cancel_left h) hlength).2
  exact UInt32.toNat_inj.mp (hex_injective hcount)

end Names

namespace Process

variable {s : Process} {one other : TempPath}

theorem hexSuffix_path (s : Process) (made : TempPath) :
    hexSuffix (s.path made) = uniqueId s.pid made.clock.time made.count := by
  rw [path, NamePrefix.text, ← List.append_assoc (tempBase _), List.append_assoc _ [_],
    List.singleton_append]
  exact hexSuffix_append made.namePrefix.isHexDigit_mark fun c => isHexDigit_uniqueId

theorem path_ne (h : one.count ≠ other.count) : s.path one ≠ s.path other := by
  intro heq
  have hid := congrArg hexSuffix heq
  rw [hexSuffix_path, hexSuffix_path] at hid
  exact h (count_of_uniqueId hid)

/-- A name goes on to its end without a slash. -/
theorem not_below (htmpdir : one.tmpdir = other.tmpdir) :
    ¬ s.path one ++ ['/'] <+: s.path other := by
  intro hbelow
  rw [path, path, htmpdir, List.append_assoc, List.append_assoc, List.append_assoc,
    List.prefix_append_right_inj] at hbelow
  have hslash : '/' ∈ other.namePrefix.text ++ uniqueId s.pid other.clock.time other.count :=
    hbelow.subset (by simp)
  rcases List.mem_append.mp hslash with hmem | hmem
  · exact other.namePrefix.flat hmem
  · exact absurd (isHexDigit_uniqueId hmem) (by decide)

theorem apart_of_count_ne (h : one.count ≠ other.count) : s.Apart one other :=
  ⟨path_ne h, fun htmpdir => ⟨not_below htmpdir, not_below htmpdir.symm⟩⟩

/-! ## All names of a process -/

/-- The counter has counted the calls. -/
structure Counted (s : Process) : Prop where
  counter : s.counter.toNat = s.calls % 2 ^ 32
  counts : s.calls < 2 ^ 32 → (s.made.map TempPath.count).Nodup ∧
    ∀ made ∈ s.made, made.count.toNat ≤ s.calls

theorem Counted.next (h : s.Counted) (call : MakeTempDir) : (s.next call).Counted where
  counter := by
    change (s.counter + 1).toNat = (s.calls + 1) % 2 ^ 32
    rw [UInt32.toNat_add, h.counter]
    exact Nat.mod_add_mod s.calls (2 ^ 32) 1
  counts := by
    intro hcalls
    have hbefore : s.calls < 2 ^ 32 := Nat.lt_of_succ_lt hcalls
    obtain ⟨hnodup, hle⟩ := h.counts hbefore
    have hcount : (s.counter + 1).toNat = s.calls + 1 := by
      rw [UInt32.toNat_add, h.counter, Nat.mod_eq_of_lt hbefore]
      exact Nat.mod_eq_of_lt hcalls
    rw [Process.next]
    cases call.mkdir with
    | false => exact ⟨hnodup, fun made hmade => (hle made hmade).trans (Nat.le_succ _)⟩
    | true =>
        refine ⟨List.nodup_cons.mpr ⟨fun hmem => ?_, hnodup⟩, fun made hmade => ?_⟩
        · obtain ⟨made, hmade, heq⟩ := List.mem_map.mp hmem
          have hold := hle made hmade
          rw [heq] at hold
          exact absurd (hcount.symm.le.trans hold) (Nat.not_succ_le_self _)
        · rcases List.mem_cons.mp hmade with rfl | hmade
          · exact hcount.le
          · exact (hle made hmade).trans (Nat.le_succ _)

/-- Whatever servers are made in a process, with whatever prefixes, at
whatever times and in whatever directories, no two of the first 2^32 - 1
temporary directories have the same path, and none lies in another. -/
theorem temp_paths_apart (pid : UInt32) (calls : List MakeTempDir) :
    Always step (fun s => s.calls < 2 ^ 32 → s.made.Pairwise s.Apart) { pid := pid } calls := by
  refine always_of_invariant_along (P := fun _ _ => True) (I := Counted) ?_ ?_ ?_
    (along_of_forall (fun _ _ => trivial) _ _)
  · rintro s call t h - ⟨⟩
    exact h.next call
  · intro s h hcalls
    have hcounts := List.pairwise_map.mp (h.counts hcalls).1
    exact hcounts.imp apart_of_count_ne
  · exact ⟨rfl, fun _ => ⟨List.nodup_nil, List.forall_mem_nil _⟩⟩

end Process

end MockServices.Detail
