import Mathlib.Data.List.Infix
import MockServices.Detail.ThreadGroup

/-!
# The threads of a server

The FTP and the MQTT server run an accept loop in a thread of its own. The
loop adds a thread for each client to the group and joins those that have
finished. `stop()` joins the loop before it joins the group, so nobody adds
a thread after that, and the destructor finds no thread.
-/

namespace MockServices.Detail

open Foundations

/-- Where `accept_loop` is. -/
inductive LoopStage where
  | checking
  | waiting
  | sweeping
  | ended

inductive LoopAction where
  /-- The condition of the loop. -/
  | check
  /-- `select` fails. -/
  | fail
  /-- There is no client. -/
  | idle
  /-- A client has come, and its thread is added. -/
  | serve
  /-- `join_finished`, and the flags that are set meanwhile. -/
  | sweep (during : ℕ → List StopFlag)

/-- What `stop()` does once it has cleared `running_`. -/
inductive StopStep where
  | closeSockets
  | joinAcceptor
  | joinAll
  deriving DecidableEq

/-- `stop()` of the FTP server. -/
def ftpStop : List StopStep := [.closeSockets, .joinAcceptor, .joinAll]

/-- `stop()` of the MQTT server. -/
def mqttStop : List StopStep := [.closeSockets, .joinAcceptor, .closeSockets, .joinAll]

/-- A server as far as its threads go. `acceptor_` is joinable while it
stands for a thread, and then that is somewhere in its loop. -/
structure ServerThreads where
  running : Bool := false
  acceptor : Option LoopStage := none
  group : ThreadGroup := {}
  /-- What is left of a `stop()`. -/
  stopping : Option (List StopStep) := none
  destroying : Bool := false
  destroyed : Bool := false
  terminated : Bool := false

/-- The calls of `start` and `stop`, and the destructor, come one after the
other; the loop and the threads of the clients go on meanwhile. -/
inductive ServerEvent where
  | start
  | stop
  | destroy
  | proceed
  | loop (action : LoopAction)
  | finish (thread : ThreadId)

/-- `make_stop_flag`, for the thread that is created next. -/
def ThreadGroup.makeStopFlag (group : ThreadGroup) : ThreadGroup :=
  { group with flags := fun flag => flag ≠ group.created && group.flags flag }

namespace ServerThreads

/-- A call on the group; the process may end in it. -/
def call (s : ServerThreads) (event : GroupEvent) : ServerThreads :=
  match s.group.step event with
  | some group => { s with group := group }
  | none => { s with terminated := true }

def start (s : ServerThreads) : ServerThreads :=
  -- A server that runs throws.
  if s.running then s
  else match s.acceptor with
    | none => { s with running := true, acceptor := some .checking }
    -- A joinable handle must not be assigned to.
    | some _ => { s with terminated := true }

def enterStop (stop : List StopStep) (s : ServerThreads) : ServerThreads :=
  if s.running then { s with running := false, stopping := some stop }
  else { s with stopping := some [] }

/-- The end of `stop()`, and of the destructor. -/
def leaveStop (s : ServerThreads) : ServerThreads :=
  if s.destroying then
    match s.acceptor, clearThreads s.group.threads with
    | none, some () => { s with stopping := none, destroyed := true }
    | _, _ => { s with terminated := true }
  else { s with stopping := none }

/-- The next step of `stop()`. Joining the acceptor waits for its end. -/
def proceed (s : ServerThreads) : Option ServerThreads :=
  match s.stopping with
  | none => none
  | some [] => some s.leaveStop
  | some (.closeSockets :: rest) => some { s with stopping := some rest }
  | some (.joinAcceptor :: rest) =>
      match s.acceptor with
      | none => some { s with stopping := some rest }
      | some .ended => some { s with acceptor := none, stopping := some rest }
      | some _ => none
  | some (.joinAll :: rest) => some { s.call .joinAll with stopping := some rest }

/-- `accept_loop` -/
def loop (s : ServerThreads) : LoopStage → LoopAction → Option ServerThreads
  | .checking, .check =>
      some { s with acceptor := some (if s.running then .waiting else .ended) }
  | .waiting, .fail => some { s with acceptor := some .ended }
  | .waiting, .idle => some { s with acceptor := some .checking }
  | .waiting, .serve =>
      let s := { s with group := s.group.makeStopFlag, acceptor := some .sweeping }
      some (s.call (.add s.group.created))
  | .sweeping, .sweep during =>
      some ({ s with acceptor := some .checking }.call (.joinFinished during))
  | _, _ => none

def step (stop : List StopStep) (s : ServerThreads) (event : ServerEvent) :
    Option ServerThreads :=
  if s.terminated then none
  else match event with
    | .start => if s.stopping = none ∧ s.destroying = false then some s.start else none
    | .stop => if s.stopping = none ∧ s.destroying = false then some (s.enterStop stop) else none
    | .destroy =>
        if s.stopping = none ∧ s.destroying = false then
          some { s.enterStop stop with destroying := true }
        else none
    | .proceed => s.proceed
    | .loop action => s.acceptor.bind fun stage => s.loop stage action
    | .finish thread =>
        if thread < s.group.created then some (s.call (.setDone thread)) else none

end ServerThreads

/-- After the accept loop has been joined the group will be. -/
def InOrder (stop : List StopStep) : Prop :=
  .joinAcceptor ∈ stop ∧ ∀ rest ∈ stop.tails, .joinAcceptor ∈ rest → .joinAll ∈ rest

theorem inOrder_ftpStop : InOrder ftpStop := by
  unfold InOrder
  decide

theorem inOrder_mqttStop : InOrder mqttStop := by
  unfold InOrder
  decide

namespace ServerThreads

/-- What is joined already, in every state. -/
structure Orderly (stop : List StopStep) (s : ServerThreads) : Prop where
  sound : s.group.Sound
  alive : s.terminated = false
  stopped : s.stopping = none → s.running = false → s.acceptor = none ∧ s.group.threads = []
  stopping : ∀ rest, s.stopping = some rest → s.running = false ∧ rest <:+ stop ∧
    (.joinAcceptor ∉ rest → s.acceptor = none) ∧ (.joinAll ∉ rest → s.group.threads = [])
  destroying : s.destroying = true → s.running = false
  destroyed : s.destroyed = true → s.destroying = true ∧ s.stopping = none

section Steps

variable {stop : List StopStep} {s t : ServerThreads} {stage : LoopStage}

theorem Orderly.init (stop : List StopStep) : Orderly stop {} where
  sound := ThreadGroup.sound_init
  alive := rfl
  stopped _ _ := ⟨rfl, rfl⟩
  stopping rest h := by cases h
  destroying h := by cases h
  destroyed h := by cases h

/-- Without the loop nobody adds a thread. -/
theorem Orderly.regroup (horder : InOrder stop) (h : Orderly stop s) {group : ThreadGroup}
    (hsound : group.Sound)
    (hempty : s.acceptor = none → s.group.threads = [] → group.threads = []) :
    Orderly stop { s with group := group } where
  sound := hsound
  alive := h.alive
  stopped hnone hrunning := by
    obtain ⟨hacceptor, hthreads⟩ := h.stopped hnone hrunning
    exact ⟨hacceptor, hempty hacceptor hthreads⟩
  stopping rest hrest := by
    obtain ⟨hrunning, hsuffix, hacceptor, hthreads⟩ := h.stopping rest hrest
    refine ⟨hrunning, hsuffix, hacceptor, fun hall => ?_⟩
    have hjoined : .joinAcceptor ∉ rest := fun hmem =>
      hall (horder.2 rest ((List.mem_tails _ _).mpr hsuffix) hmem)
    exact hempty (hacceptor hjoined) (hthreads hall)
  destroying := h.destroying
  destroyed := h.destroyed

theorem Orderly.move (h : Orderly stop s) (hstage : s.acceptor = some stage) (next : LoopStage) :
    Orderly stop { s with acceptor := some next } where
  sound := h.sound
  alive := h.alive
  stopped hnone hrunning := by
    have hacceptor := (h.stopped hnone hrunning).1
    rw [hstage] at hacceptor
    cases hacceptor
  stopping rest hrest := by
    obtain ⟨hrunning, hsuffix, hacceptor, hthreads⟩ := h.stopping rest hrest
    refine ⟨hrunning, hsuffix, fun hjoined => ?_, hthreads⟩
    have hnone := hacceptor hjoined
    rw [hstage] at hnone
    cases hnone
  destroying := h.destroying
  destroyed := h.destroyed

/-- A call on the group returns. -/
theorem call_eq (h : s.group.Sound) (event : GroupEvent) :
    ∃ group, s.group.step event = some group ∧ group.Sound ∧
      s.call event = { s with group := group } := by
  obtain ⟨group, hstep, hsound, -⟩ := h.step event
  refine ⟨group, hstep, hsound, ?_⟩
  rw [call, hstep]

theorem sound_makeStopFlag {group : ThreadGroup} (h : group.Sound) : group.makeStopFlag.Sound where
  joinable := h.joinable
  conserved := h.conserved

/-- The accept loop calls the group while its handle is joinable. -/
theorem Orderly.loopCall (horder : InOrder stop) (h : Orderly stop s)
    (hstage : s.acceptor = some stage) (event : GroupEvent) : Orderly stop (s.call event) := by
  obtain ⟨group, -, hsound, hcall⟩ := call_eq h.sound event
  rw [hcall]
  apply h.regroup horder hsound
  intro hnone
  rw [hstage] at hnone
  cases hnone

theorem Orderly.loop (horder : InOrder stop) (h : Orderly stop s)
    (hstage : s.acceptor = some stage) {action : LoopAction}
    (hloop : s.loop stage action = some t) : Orderly stop t := by
  unfold ServerThreads.loop at hloop
  split at hloop
  case h_1 | h_2 | h_3 =>
      cases hloop
      exact h.move hstage _
  case h_4 =>
      cases hloop
      have hflag : Orderly stop { s with group := s.group.makeStopFlag } :=
        h.regroup horder (sound_makeStopFlag h.sound) fun _ hthreads => hthreads
      exact (hflag.move hstage .sweeping).loopCall horder rfl _
  case h_5 =>
      cases hloop
      exact (h.move hstage .checking).loopCall horder rfl _
  case h_6 => cases hloop

theorem Orderly.start (h : Orderly stop s) (hnone : s.stopping = none)
    (hlive : s.destroying = false) : Orderly stop s.start := by
  unfold ServerThreads.start
  split
  · exact h
  · next hrunning =>
      rw [(h.stopped hnone (Bool.eq_false_iff.mpr hrunning)).1]
      exact {
        sound := h.sound
        alive := h.alive
        stopped _ hrunning := by cases hrunning
        stopping rest hrest := by
          rw [hnone] at hrest
          cases hrest
        destroying hdestroying := by
          rw [hlive] at hdestroying
          cases hdestroying
        destroyed := h.destroyed }

theorem enterStop_running (stop : List StopStep) (s : ServerThreads) :
    (s.enterStop stop).running = false := by
  unfold enterStop
  split
  · rfl
  · next hrunning => exact Bool.eq_false_iff.mpr hrunning

theorem Orderly.enterStop (horder : InOrder stop) (h : Orderly stop s)
    (hnone : s.stopping = none) (hlive : s.destroying = false) (destroying : Bool) :
    Orderly stop { s.enterStop stop with destroying := destroying } := by
  have hdestroyed : s.destroyed = true → False := by
    intro hdestroyed
    have hdestroying := (h.destroyed hdestroyed).1
    rw [hlive] at hdestroying
    cases hdestroying
  have hrunning := enterStop_running stop s
  unfold ServerThreads.enterStop at hrunning ⊢
  split
  · exact {
      sound := h.sound
      alive := h.alive
      stopped hstopping := by cases hstopping
      stopping rest hrest := by
        cases hrest
        refine ⟨rfl, List.suffix_rfl, fun hmem => (hmem horder.1).elim, fun hmem => ?_⟩
        exact (hmem (horder.2 stop ((List.mem_tails _ _).mpr List.suffix_rfl) horder.1)).elim
      destroying _ := rfl
      destroyed hd := (hdestroyed hd).elim }
  · next hstopped =>
      have hfalse : s.running = false := Bool.eq_false_iff.mpr hstopped
      obtain ⟨hacceptor, hthreads⟩ := h.stopped hnone hfalse
      exact {
        sound := h.sound
        alive := h.alive
        stopped hstopping := by cases hstopping
        stopping rest hrest := by
          cases hrest
          exact ⟨hfalse, List.nil_suffix, fun _ => hacceptor, fun _ => hthreads⟩
        destroying _ := hfalse
        destroyed hd := (hdestroyed hd).elim }

/-- The end of `stop()` finds no thread. -/
theorem Orderly.leaveStop (h : Orderly stop s) (hstopping : s.stopping = some []) :
    Orderly stop s.leaveStop := by
  obtain ⟨hrunning, -, hacceptor, hthreads⟩ := h.stopping [] hstopping
  have hnone := hacceptor List.not_mem_nil
  have hnil := hthreads List.not_mem_nil
  unfold ServerThreads.leaveStop
  rw [hnone, hnil]
  split
  · next hdestroying =>
      exact {
        sound := h.sound
        alive := h.alive
        stopped _ _ := ⟨rfl, hnil⟩
        stopping rest hrest := by cases hrest
        destroying := h.destroying
        destroyed _ := ⟨hdestroying, rfl⟩ }
  · exact {
      sound := h.sound
      alive := h.alive
      stopped _ _ := ⟨rfl, hnil⟩
      stopping rest hrest := by cases hrest
      destroying := h.destroying
      destroyed hdestroyed := ⟨(h.destroyed hdestroyed).1, rfl⟩ }

/-- A step of `stop()` is done with. -/
theorem Orderly.pass (h : Orderly stop s) {done : StopStep} {rest : List StopStep}
    (hstopping : s.stopping = some (done :: rest)) (acceptor : Option LoopStage)
    {group : ThreadGroup} (hsound : group.Sound)
    (hacceptor : .joinAcceptor ∉ rest → acceptor = none)
    (hthreads : .joinAll ∉ rest → group.threads = []) :
    Orderly stop { s with
      acceptor := acceptor
      group := group
      stopping := some rest } := by
  obtain ⟨hrunning, hsuffix, -⟩ := h.stopping _ hstopping
  exact {
    sound := hsound
    alive := h.alive
    stopped hnone := by cases hnone
    stopping left hleft := by
      cases hleft
      exact ⟨hrunning, (List.suffix_cons done rest).trans hsuffix, hacceptor, hthreads⟩
    destroying := h.destroying
    destroyed hdestroyed := by
      have hnone := (h.destroyed hdestroyed).2
      rw [hstopping] at hnone
      cases hnone }

theorem Orderly.proceed (h : Orderly stop s) (hproceed : s.proceed = some t) : Orderly stop t := by
  have hcons {other done : StopStep} {rest : List StopStep} (hne : other ≠ done)
      (hmem : other ∉ rest) : other ∉ done :: rest := List.not_mem_cons_of_ne_of_not_mem hne hmem
  unfold ServerThreads.proceed at hproceed
  split at hproceed
  case h_1 => cases hproceed
  case h_2 hstopping =>
      cases hproceed
      exact h.leaveStop hstopping
  case h_3 hstopping =>
      cases hproceed
      obtain ⟨-, -, hacceptor, hthreads⟩ := h.stopping _ hstopping
      exact h.pass hstopping s.acceptor h.sound (fun hmem => hacceptor (hcons (by decide) hmem))
        fun hmem => hthreads (hcons (by decide) hmem)
  case h_4 hstopping =>
      obtain ⟨-, -, -, hthreads⟩ := h.stopping _ hstopping
      have hpass := h.pass hstopping none h.sound (fun _ => rfl)
        fun hmem => hthreads (hcons (by decide) hmem)
      split at hproceed
      · next hnone =>
          cases hproceed
          rw [← hnone] at hpass
          exact hpass
      · cases hproceed
        exact hpass
      · cases hproceed
  case h_5 hstopping =>
      cases hproceed
      obtain ⟨-, -, hacceptor, -⟩ := h.stopping _ hstopping
      have hjoinAll := h.sound.joinAll
      obtain ⟨group, hstep, hsound, hcall⟩ := call_eq h.sound .joinAll
      have hnil : group.threads = [] := by
        rw [hjoinAll] at hstep
        cases hstep
        rfl
      rw [hcall]
      exact h.pass hstopping s.acceptor hsound
        (fun hmem => hacceptor (hcons (by decide) hmem)) fun _ => hnil

theorem Orderly.step (horder : InOrder stop) (h : Orderly stop s) {event : ServerEvent}
    (hstep : s.step stop event = some t) : Orderly stop t := by
  unfold ServerThreads.step at hstep
  rw [h.alive, if_neg Bool.false_ne_true] at hstep
  cases event with
  | start =>
      obtain ⟨⟨hnone, hlive⟩, hstart⟩ := Option.ite_none_right_eq_some.mp hstep
      cases hstart
      exact h.start hnone hlive
  | stop =>
      obtain ⟨⟨hnone, hlive⟩, henter⟩ := Option.ite_none_right_eq_some.mp hstep
      cases henter
      have hsame : (s.enterStop stop).destroying = false := by
        unfold ServerThreads.enterStop
        split <;> exact hlive
      have hentered := h.enterStop horder hnone hlive false
      rw [← hsame] at hentered
      exact hentered
  | destroy =>
      obtain ⟨⟨hnone, hlive⟩, henter⟩ := Option.ite_none_right_eq_some.mp hstep
      cases henter
      exact h.enterStop horder hnone hlive true
  | proceed => exact h.proceed hstep
  | loop action =>
      obtain ⟨stage, hstage, hloop⟩ := Option.bind_eq_some_iff.mp hstep
      exact h.loop horder hstage hloop
  | finish thread =>
      obtain ⟨-, hfinish⟩ := Option.ite_none_right_eq_some.mp hstep
      cases hfinish
      exact h.regroup horder ⟨h.sound.joinable, h.sound.conserved⟩ fun _ hthreads => hthreads

/-- A server that has been destroyed has joined every thread it has had. -/
theorem joined_of_destroyed (horder : InOrder stop) {events : List ServerEvent}
    (hrun : run (ServerThreads.step stop) {} events = some s) :
    s.terminated = false ∧ (s.destroyed = true → s.acceptor = none ∧ s.group.threads = [] ∧
      ∀ thread < s.group.created, s.group.joined.count thread = 1) := by
  have h : Orderly stop s :=
    run_invariant (fun _ _ _ h hstep => h.step horder hstep) (Orderly.init stop) hrun
  refine ⟨h.alive, fun hdestroyed => ?_⟩
  obtain ⟨hdestroying, hnone⟩ := h.destroyed hdestroyed
  obtain ⟨hacceptor, hthreads⟩ := h.stopped hnone (h.destroying hdestroying)
  refine ⟨hacceptor, hthreads, fun thread hthread => ?_⟩
  have hconserved := h.sound.conserved
  rw [hthreads] at hconserved
  rcases hconserved.held_or_gone hthread with ⟨hheld, -⟩ | ⟨-, hcount⟩
  · cases hheld
  · exact hcount

/-- Two clients; the first one is joined by the loop, the other by `stop()`. -/
example : (run (ServerThreads.step mqttStop) {} [.start, .loop .check, .loop .serve,
    .loop (.sweep fun _ => []), .loop .check, .loop .serve, .finish 0,
    .loop (.sweep fun _ => []), .stop, .loop .check, .proceed, .proceed, .proceed, .proceed,
    .proceed, .destroy, .proceed]).map (fun s => (s.destroyed, s.group.joined)) =
      some (true, [0, 1]) := rfl

end Steps

end ServerThreads

open ThreadGroup in
/-- Whatever the calls and the flags, a thread is held and not joined, or
joined once and no longer held. `join_finished` joins threads whose flag is
set, `join_all` leaves no thread of before it. So the servers have joined
all their threads when they are destroyed. -/
theorem threads_joined_once :
    (∀ events : List GroupEvent, ∃ group, run ThreadGroup.step {} events = some group ∧
      ∀ thread < group.created,
        (thread ∈ held group.threads ∧ group.joined.count thread = 0) ∨
          (thread ∉ held group.threads ∧ group.joined.count thread = 1)) ∧
    (∀ (events : List GroupEvent) (group next : ThreadGroup) (during : ℕ → List StopFlag),
      run ThreadGroup.step {} events = some group →
        group.step (.joinFinished during) = some next →
          ∃ joined, next.joined = group.joined ++ joined ∧ ∀ thread ∈ joined,
            ∃ entry ∈ group.threads, entry.thread = some thread ∧
              next.flags entry.done = true) ∧
    (∀ (before after : List GroupEvent) (group : ThreadGroup),
      run ThreadGroup.step {} (before ++ .joinAll :: after) = some group →
        ∃ middle, run ThreadGroup.step {} before = some middle ∧
          ∀ thread < middle.created, thread ∈ group.joined) ∧
    ∀ stop ∈ [ftpStop, mqttStop], ∀ (events : List ServerEvent) (s : ServerThreads),
      run (ServerThreads.step stop) {} events = some s →
        s.terminated = false ∧ (s.destroyed = true → s.acceptor = none ∧ s.group.threads = [] ∧
          ∀ thread < s.group.created, s.group.joined.count thread = 1) := by
  refine ⟨?_, ?_, ?_, ?_⟩
  · intro events
    obtain ⟨group, hrun, hsound, -⟩ := sound_init.run events
    exact ⟨group, hrun, fun thread hthread => hsound.conserved.held_or_gone hthread⟩
  · intro events group next during hrun hnext
    obtain ⟨group', hrun', hsound, -⟩ := sound_init.run events
    rw [hrun] at hrun'
    cases hrun'
    obtain ⟨sweep, hsweeps, hstep⟩ := hsound.joinFinished during
    rw [hnext] at hstep
    cases hstep
    exact ⟨_, rfl, hsweeps.done⟩
  · intro before after group hrun
    obtain ⟨middle, hbefore, hafter⟩ := run_append_some_iff.mp hrun
    obtain ⟨middle', hbefore', hsound, -⟩ := sound_init.run before
    rw [hbefore] at hbefore'
    cases hbefore'
    exact ⟨middle, hbefore, fun thread hthread => hsound.joined_of_joinAll after hafter hthread⟩
  · intro stop hstop events s hrun
    have horder : InOrder stop := by
      rcases List.mem_pair.mp hstop with rfl | rfl
      · exact inOrder_ftpStop
      · exact inOrder_mqttStop
    exact ServerThreads.joined_of_destroyed horder hrun

end MockServices.Detail
