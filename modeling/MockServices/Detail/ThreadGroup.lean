import MockServices.Foundations.Run
import MockServices.Foundations.Turnover

/-!
# Thread groups

A `thread_group` holds threads, each with a flag that tells when it is
done. `join_finished` joins those whose flag it finds set and erases them
as it goes; the flags change meanwhile. `join_all` joins the rest. Joining
a handle that stands for no thread throws, and a handle that dies while it
stands for one ends the process.
-/

namespace MockServices.Detail

open Foundations

abbrev ThreadId := ℕ

/-- What a `stop_flag` points to. -/
abbrev StopFlag := ℕ

/-- A `std::thread`, by the thread it stands for. It is joinable if there
is one. -/
abbrev ThreadHandle := Option ThreadId

/-- `std::thread::join`: the thread that is joined, and the handle after it. -/
def joinThread : ThreadHandle → Option (ThreadId × ThreadHandle)
  | some thread => some (thread, none)
  | none => none

/-- The destructor of `std::thread`. -/
def destroyThread : ThreadHandle → Option Unit
  | some _ => none
  | none => some ()

structure ThreadEntry where
  thread : ThreadHandle
  done : StopFlag

/-- `threads_`, with the flags, the number of threads there have been, and
the threads that have been joined, one after the other. -/
structure ThreadGroup where
  threads : List ThreadEntry := []
  flags : StopFlag → Bool := fun _ => false
  created : ℕ := 0
  joined : List ThreadId := []

def setFlags (done : List StopFlag) (flags : StopFlag → Bool) : StopFlag → Bool :=
  fun flag => flag ∈ done || flags flag

structure Sweep where
  threads : List ThreadEntry
  joined : List ThreadId
  flags : StopFlag → Bool

/-- The loop of `join_finished`, from a turn on. Before a turn the threads
set the flags that `during` says. -/
def joinFinishedFrom (during : ℕ → List StopFlag) :
    ℕ → (StopFlag → Bool) → List ThreadEntry → Option Sweep
  | _, flags, [] => some ⟨[], [], flags⟩
  | turn, flags, entry :: rest => do
      let flags := setFlags (during turn) flags
      if flags entry.done then
        let (thread, handle) ← joinThread entry.thread
        destroyThread handle
        let sweep ← joinFinishedFrom during (turn + 1) flags rest
        return { sweep with joined := thread :: sweep.joined }
      else
        let sweep ← joinFinishedFrom during (turn + 1) flags rest
        return { sweep with threads := entry :: sweep.threads }

def joinFinished (during : ℕ → List StopFlag) (group : ThreadGroup) : Option ThreadGroup := do
  let sweep ← joinFinishedFrom during 0 group.flags group.threads
  return { group with
    threads := sweep.threads
    flags := sweep.flags
    joined := group.joined ++ sweep.joined }

/-- The loop of `join_all`: the entries after it, and what it has joined. -/
def joinAllFrom : List ThreadEntry → Option (List ThreadEntry × List ThreadId)
  | [] => some ([], [])
  | entry :: rest =>
      if entry.thread.isSome then do
        let (thread, handle) ← joinThread entry.thread
        let (entries, joined) ← joinAllFrom rest
        return (⟨handle, entry.done⟩ :: entries, thread :: joined)
      else do
        let (entries, joined) ← joinAllFrom rest
        return (entry :: entries, joined)

/-- `std::vector::clear`. -/
def clearThreads : List ThreadEntry → Option Unit
  | [] => some ()
  | entry :: rest => do
      destroyThread entry.thread
      clearThreads rest

def joinAll (group : ThreadGroup) : Option ThreadGroup := do
  let (entries, joined) ← joinAllFrom group.threads
  clearThreads entries
  return { group with threads := [], joined := group.joined ++ joined }

/-- A new thread is added with a flag. -/
def ThreadGroup.add (done : StopFlag) (group : ThreadGroup) : ThreadGroup :=
  { group with
    threads := group.threads ++ [⟨some group.created, done⟩]
    created := group.created + 1 }

inductive GroupEvent where
  | add (done : StopFlag)
  | joinFinished (during : ℕ → List StopFlag)
  | joinAll
  | setDone (done : StopFlag)

namespace ThreadGroup

/-- Each call is one step under the mutex. `none` is the end of the process. -/
def step (group : ThreadGroup) : GroupEvent → Option ThreadGroup
  | .add done => some (group.add done)
  | .joinFinished during => joinFinished during group
  | .joinAll => joinAll group
  | .setDone done => some { group with flags := setFlags [done] group.flags }

/-- The threads that the entries stand for. -/
def held (entries : List ThreadEntry) : List ThreadId := entries.filterMap ThreadEntry.thread

def Joinable (entries : List ThreadEntry) : Prop :=
  ∀ entry ∈ entries, ∃ thread, entry.thread = some thread

/-! ## The loops -/

section Loops

variable {entries rest : List ThreadEntry} {entry : ThreadEntry}

theorem Joinable.tail (h : Joinable (entry :: rest)) : Joinable rest :=
  fun other hother => h other (List.mem_cons_of_mem _ hother)

theorem held_cons {thread : ThreadId} (h : entry.thread = some thread) (rest : List ThreadEntry) :
    held (entry :: rest) = thread :: held rest := List.filterMap_cons_some h

/-- What `join_finished` does to the entries, all of them joinable. -/
structure Sweeps (flags : StopFlag → Bool) (entries : List ThreadEntry) (sweep : Sweep) : Prop where
  kept : sweep.threads.Sublist entries
  balance : (held sweep.threads ++ sweep.joined).Perm (held entries)
  flags : ∀ flag, flags flag = true → sweep.flags flag = true
  done : ∀ thread ∈ sweep.joined, ∃ entry ∈ entries, entry.thread = some thread ∧
    sweep.flags entry.done = true

theorem joinFinishedFrom_sweeps (during : ℕ → List StopFlag) (turn : ℕ) (flags : StopFlag → Bool)
    (h : Joinable entries) :
    ∃ sweep, joinFinishedFrom during turn flags entries = some sweep ∧
      Sweeps flags entries sweep := by
  induction entries generalizing turn flags with
  | nil => exact ⟨_, rfl, List.Sublist.slnil, List.Perm.refl _, fun _ hset => hset, by simp⟩
  | cons entry rest ih =>
      obtain ⟨thread, hthread⟩ := h entry List.mem_cons_self
      obtain ⟨now, hnow⟩ : ∃ now, now = setFlags (during turn) flags := ⟨_, rfl⟩
      obtain ⟨sweep, hsweep, hsweeps⟩ := ih (turn + 1) now h.tail
      have hflags : ∀ flag, flags flag = true → sweep.flags flag = true := by
        intro flag hset
        apply hsweeps.flags
        rw [hnow, setFlags, hset, Bool.or_true]
      rw [joinFinishedFrom, ← hnow, hthread]
      by_cases hdone : now entry.done = true
      · refine ⟨{ sweep with joined := thread :: sweep.joined }, ?_, ?_⟩
        · simp only [hdone, if_true, joinThread, destroyThread, Option.bind_eq_bind,
            Option.bind_some, hsweep]
          rfl
        · refine ⟨hsweeps.kept.cons _, ?_, hflags, ?_⟩
          · rw [held_cons hthread]
            exact List.perm_middle.trans (hsweeps.balance.cons thread)
          · intro other hother
            rcases List.mem_cons.mp hother with rfl | hother
            · exact ⟨entry, List.mem_cons_self, hthread, hsweeps.flags _ hdone⟩
            · obtain ⟨found, hfound, hset⟩ := hsweeps.done other hother
              exact ⟨found, List.mem_cons_of_mem _ hfound, hset⟩
      · refine ⟨{ sweep with threads := entry :: sweep.threads }, ?_, ?_⟩
        · simp only [hdone, Bool.false_eq_true, if_false, Option.bind_eq_bind, hsweep]
          rfl
        · refine ⟨hsweeps.kept.cons_cons _, ?_, hflags, ?_⟩
          · rw [held_cons hthread, held_cons hthread, List.cons_append]
            exact hsweeps.balance.cons thread
          · intro other hother
            obtain ⟨found, hfound, hset⟩ := hsweeps.done other hother
            exact ⟨found, List.mem_cons_of_mem _ hfound, hset⟩

theorem joinAllFrom_joinable (h : Joinable entries) :
    ∃ left, joinAllFrom entries = some (left, held entries) ∧ clearThreads left = some () := by
  induction entries with
  | nil => exact ⟨[], rfl, rfl⟩
  | cons entry rest ih =>
      obtain ⟨thread, hthread⟩ := h entry List.mem_cons_self
      obtain ⟨left, hleft, hclear⟩ := ih h.tail
      refine ⟨⟨none, entry.done⟩ :: left, ?_, ?_⟩
      · simp only [joinAllFrom, hthread, Option.isSome_some, if_true, joinThread,
          Option.bind_eq_bind, Option.bind_some, hleft, held_cons hthread]
        rfl
      · simp only [clearThreads, destroyThread, Option.bind_eq_bind, Option.bind_some, hclear]

end Loops

/-! ## Every thread is joined once -/

structure Sound (group : ThreadGroup) : Prop where
  joinable : Joinable group.threads
  conserved : Conserved group.created (held group.threads) group.joined

section Steps

variable {group next : ThreadGroup}

theorem sound_init : ({} : ThreadGroup).Sound where
  joinable entry hentry := by cases hentry
  conserved := Conserved.zero

theorem Sound.add (h : group.Sound) (done : StopFlag) : (group.add done).Sound where
  joinable entry hentry := by
    rcases List.mem_append.mp hentry with hentry | hentry
    · exact h.joinable entry hentry
    · rw [List.mem_singleton.mp hentry]
      exact ⟨_, rfl⟩
  conserved := by
    have hheld : held (group.add done).threads = held group.threads ++ [group.created] :=
      List.filterMap_append
    rw [hheld]
    exact h.conserved.issue

theorem Sound.joinFinished (h : group.Sound) (during : ℕ → List StopFlag) :
    ∃ sweep, Sweeps group.flags group.threads sweep ∧
      group.step (.joinFinished during) = some { group with
        threads := sweep.threads
        flags := sweep.flags
        joined := group.joined ++ sweep.joined } := by
  obtain ⟨sweep, hsweep, hsweeps⟩ :=
    joinFinishedFrom_sweeps during 0 group.flags h.joinable
  refine ⟨sweep, hsweeps, ?_⟩
  simp only [step, Detail.joinFinished, hsweep]
  rfl

theorem Sound.joinAll (h : group.Sound) :
    group.step .joinAll = some { group with
      threads := []
      joined := group.joined ++ held group.threads } := by
  obtain ⟨left, hleft, hclear⟩ := joinAllFrom_joinable h.joinable
  simp only [step, Detail.joinAll, hleft, Option.bind_eq_bind, Option.bind_some, hclear]
  rfl

/-- No call ends the process, and what is joined stays joined. -/
theorem Sound.step (h : group.Sound) (event : GroupEvent) :
    ∃ next, group.step event = some next ∧ next.Sound ∧ group.joined <+: next.joined := by
  cases event with
  | add done => exact ⟨_, rfl, h.add done, List.prefix_rfl⟩
  | joinFinished during =>
      obtain ⟨sweep, hsweeps, hstep⟩ := h.joinFinished during
      refine ⟨_, hstep, ⟨?_, ?_⟩, List.prefix_append _ _⟩
      · exact fun entry hentry => h.joinable entry (hsweeps.kept.subset hentry)
      · exact h.conserved.leave hsweeps.balance
  | joinAll =>
      refine ⟨_, h.joinAll, ⟨?_, ?_⟩, List.prefix_append _ _⟩
      · intro entry hentry
        cases hentry
      · exact h.conserved.leave (List.Perm.refl _)
  | setDone done => exact ⟨_, rfl, ⟨h.joinable, h.conserved⟩, List.prefix_rfl⟩

theorem Sound.run (h : group.Sound) (events : List GroupEvent) :
    ∃ next, run ThreadGroup.step group events = some next ∧ next.Sound ∧
      group.joined <+: next.joined := by
  induction events generalizing group with
  | nil => exact ⟨group, rfl, h, List.prefix_rfl⟩
  | cons event events ih =>
      obtain ⟨middle, hstep, hmiddle, hjoined⟩ := h.step event
      obtain ⟨next, hrun, hnext, hlater⟩ := ih hmiddle
      refine ⟨next, ?_, hnext, hjoined.trans hlater⟩
      rw [Foundations.run, hstep]
      exact hrun

/-- After a `join_all` every thread that was there has been joined. -/
theorem Sound.joined_of_joinAll (h : group.Sound) (events : List GroupEvent)
    (hrun : Foundations.run ThreadGroup.step group (.joinAll :: events) = some next)
    {thread : ThreadId} (hthread : thread < group.created) : thread ∈ next.joined := by
  obtain ⟨middle, hstep, hrest⟩ := run_cons_some_iff.mp hrun
  obtain ⟨middle', hstep', hsound, -⟩ := h.step .joinAll
  rw [hstep] at hstep'
  cases hstep'
  obtain ⟨next', hrest', -, hprefix⟩ := hsound.run events
  rw [hrest] at hrest'
  cases hrest'
  apply hprefix.subset
  rw [h.joinAll] at hstep
  cases hstep
  rw [List.mem_append]
  rcases h.conserved.held_or_gone hthread with ⟨hheld, -⟩ | ⟨-, hcount⟩
  · exact Or.inr hheld
  · exact Or.inl (List.count_pos_iff.mp (by omega))

end Steps

end ThreadGroup

end MockServices.Detail
