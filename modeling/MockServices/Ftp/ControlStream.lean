import MockServices.Foundations.Delimited
import MockServices.Ftp.Service
import Mathlib.Data.List.TakeWhile

/-!
# The command stream of a control connection

`client_loop` from one `recv` to the next: a chunk is appended to what is
left of the stream, and the inner loop dispatches every line that is
complete by then, whatever the commands do to the connection meanwhile.
-/

namespace MockServices.Ftp

open Foundations

/-- A line passed to `dispatch`, with what its command did. -/
structure Entry where
  line : Text
  effects : List Effect

structure Control where
  server : Server
  client : Client
  partialLine : Text := []
  log : List Entry := []

def Control.lines (c : Control) : List Text := c.log.map Entry.line

namespace Control

section Loop

-- What the operating system answers to the lines of the connection, in turn.
variable (answers : ℕ → Os)

def dispatchLine (c : Control) (line : Text) : Control :=
  if line = [] then c
  else
    let (server, client, effects) := dispatch (answers c.log.length) c.server c.client line
    { c with server, client, log := c.log ++ [⟨line, effects⟩] }

/-- The inner loop. Each turn takes a newline off the text, so its length
is fuel enough. -/
def drain : ℕ → Control → Control
  | 0, c => c
  | fuel + 1, c =>
      match nextLine c.partialLine with
      | none => c
      | some (line, rest) => drain fuel (dispatchLine answers { c with partialLine := rest } line)

/-- The outer loop asks for the socket, and `recv` fills at most 4095 bytes. -/
def step (c : Control) (chunk : Text) : Option Control :=
  if c.client.sock ≠ none ∧ chunk ≠ [] ∧ chunk.length ≤ 4095 then
    let c := { c with partialLine := c.partialLine ++ cStr chunk }
    some (drain answers c.partialLine.length c)
  else none

end Loop

end Control

/-- One trailing carriage return is dropped. -/
def stripCr (line : Text) : Text := if line.getLast? = some '\r' then line.dropLast else line

/-- The command lines that are complete in a text. -/
def commandsOf (text : Text) : List Text :=
  ((segments '\n' text).map stripCr).filter fun line => line ≠ []

section Lines

theorem nextLine_of_notMem {text : Text} (h : '\n' ∉ text) : nextLine text = none := if_neg h

theorem nextLine_cons {segment : Text} (rest : Text) (h : '\n' ∉ segment) :
    nextLine (segment ++ '\n' :: rest) = some (stripCr segment, rest) := by
  have hline : ∀ c ∈ segment, c ≠ '\n' := by
    rintro c hc rfl
    exact h hc
  have htake : (segment ++ '\n' :: rest).takeWhile (· ≠ '\n') = segment := by
    rw [List.takeWhile_append_of_pos (by simpa using hline)]
    simp
  have hdrop : (segment ++ '\n' :: rest).dropWhile (· ≠ '\n') = '\n' :: rest := by
    rw [List.dropWhile_append_of_pos (by simpa using hline)]
    simp
  simp only [nextLine, htake, hdrop, stripCr]
  simp

theorem commandsOf_of_notMem {text : Text} (h : '\n' ∉ text) : commandsOf text = [] := by
  rw [commandsOf, segments_of_notMem h]
  rfl

theorem commandsOf_cons {segment : Text} (rest : Text) (h : '\n' ∉ segment) :
    commandsOf (segment ++ '\n' :: rest) =
      if stripCr segment = [] then commandsOf rest else stripCr segment :: commandsOf rest := by
  rw [commandsOf, segments_cons _ _ h, List.map_cons]
  by_cases hempty : stripCr segment = [] <;> simp [hempty, commandsOf]

theorem commandsOf_append (text more : Text) :
    commandsOf (text ++ more) = commandsOf text ++ commandsOf (remainder '\n' text ++ more) := by
  simp only [commandsOf, segments_append text more, List.map_append, List.filter_append]

theorem ne_nil_of_mem_commandsOf {text line : Text} (h : line ∈ commandsOf text) : line ≠ [] := by
  simpa using (List.mem_filter.mp h).2

end Lines

namespace Control

variable {answers : ℕ → Os} {c : Control}

theorem dispatchLine_partialLine (c : Control) (line text : Text) :
    dispatchLine answers { c with partialLine := text } line =
      { dispatchLine answers c line with partialLine := text } := by
  unfold dispatchLine
  split <;> rfl

/-- The inner loop dispatches the complete lines in order and leaves the
remainder. -/
theorem drain_eq (text : Text) : ∀ (fuel : ℕ) (c : Control), text.length ≤ fuel →
    drain answers fuel { c with partialLine := text } =
      { (commandsOf text).foldl (dispatchLine answers) c with
        partialLine := remainder '\n' text } := by
  induction text using segment_induction '\n' with
  | hrest text h =>
      intro fuel c _
      rw [commandsOf_of_notMem h, remainder_of_notMem h]
      cases fuel with
      | zero => rfl
      | succ fuel => simp only [drain, nextLine_of_notMem h, List.foldl_nil]
  | hcons segment rest h ih =>
      intro fuel c hfuel
      rw [List.length_append, List.length_cons] at hfuel
      obtain ⟨fuel, rfl⟩ : ∃ n, fuel = n + 1 := ⟨fuel - 1, by omega⟩
      simp only [drain, nextLine_cons rest h, dispatchLine_partialLine, remainder_cons _ _ h]
      rw [ih fuel _ (by omega), commandsOf_cons rest h]
      split
      · next hempty => rw [hempty, dispatchLine, if_pos rfl]
      · rw [List.foldl_cons]

theorem step_eq_some {t : Control} {chunk : Text} (h : step answers c chunk = some t) :
    (c.client.sock ≠ none ∧ chunk ≠ [] ∧ chunk.length ≤ 4095) ∧
      t = { (commandsOf (c.partialLine ++ cStr chunk)).foldl (dispatchLine answers) c with
        partialLine := remainder '\n' (c.partialLine ++ cStr chunk) } := by
  obtain ⟨hchunk, ht⟩ := Option.ite_none_right_eq_some.mp h
  exact ⟨hchunk, (Option.some.inj ht).symm.trans (drain_eq _ _ c (Nat.le_refl _))⟩

theorem step_of_open {chunk : Text} (hsock : c.client.sock ≠ none) (hchunk : chunk ≠ [])
    (hlength : chunk.length ≤ 4095) : step answers c chunk =
      some { (commandsOf (c.partialLine ++ cStr chunk)).foldl (dispatchLine answers) c with
        partialLine := remainder '\n' (c.partialLine ++ cStr chunk) } := by
  rw [step, if_pos ⟨hsock, hchunk, hlength⟩]
  exact congrArg some (drain_eq _ _ c (Nat.le_refl _))

theorem lines_dispatchLine {line : Text} (h : line ≠ []) :
    (dispatchLine answers c line).lines = c.lines ++ [line] := by
  simp [dispatchLine, lines, h]

theorem lines_foldl {ls : List Text} (h : ∀ line ∈ ls, line ≠ []) (c : Control) :
    (ls.foldl (dispatchLine answers) c).lines = c.lines ++ ls := by
  induction ls generalizing c with
  | nil => simp
  | cons line ls ih =>
      rw [List.foldl_cons, ih (fun l hl => h l (List.mem_cons_of_mem _ hl)),
        lines_dispatchLine (h line List.mem_cons_self), List.append_assoc, List.singleton_append]

/-- What a chunk adds to the lines dispatched so far. -/
theorem lines_step {t : Control} {chunk : Text} (h : step answers c chunk = some t) :
    t.lines = c.lines ++ commandsOf (c.partialLine ++ cStr chunk) := by
  obtain ⟨-, rfl⟩ := step_eq_some h
  exact lines_foldl (fun _ hline => ne_nil_of_mem_commandsOf hline) c

end Control

section Refinement

variable {answers : ℕ → Os}

theorem logged_append (log : List Effect) {s t : Server × Loop × List Effect} {ms : List Move}
    (h : run Loop.logged s ms = some t) :
    run Loop.logged (s.1, s.2.1, log ++ s.2.2) ms = some (t.1, t.2.1, log ++ t.2.2) := by
  induction ms generalizing s with
  | nil =>
      obtain rfl : s = t := by simpa using h
      rfl
  | cons m ms ih =>
      obtain ⟨u, hu, ht⟩ := run_cons_some_iff.mp h
      obtain ⟨⟨server, loop, effects⟩, hmove, rfl⟩ := Option.map_eq_some_iff.mp hu
      refine run_cons_some_iff.mpr ⟨_, ?_, ih ht⟩
      simp only [Loop.logged, hmove, Option.map_some, List.append_assoc]

/-- The loop of the transition system between two commands of the same connection. -/
def Control.loop (c : Control) (stage : Stage) : Loop :=
  { client := c.client, stage, partialLine := c.partialLine }

def Control.effects (c : Control) : List Effect := c.log.flatMap Entry.effects

variable (answers) in
/-- One line, step by step. -/
theorem line_refined {c : Control} {line rest : Text}
    (hline : nextLine c.partialLine = some (line, rest)) :
    ∃ ms, run Loop.logged (c.server, c.loop .lines, c.effects) ms =
      some ((Control.dispatchLine answers { c with partialLine := rest } line).server,
        (Control.dispatchLine answers { c with partialLine := rest } line).loop .lines,
        (Control.dispatchLine answers { c with partialLine := rest } line).effects) := by
  let os := answers c.log.length
  by_cases hempty : line = []
  · subst hempty
    have hmove : (c.loop .lines).move c.server (.line os) =
        some (c.server, { c.loop .lines with partialLine := rest }, []) := by
      simp only [Loop.move, Control.loop, hline]
    refine ⟨[.line os], ?_⟩
    simpa [run, Loop.logged, Control.dispatchLine, Control.loop, Control.effects] using hmove
  · have hcommand : (c.loop .lines).nextCommand = some line :=
      nextCommand_eq_some_iff.mpr ⟨rfl, ⟨rest, hline⟩, hempty⟩
    have hdispatched : Control.dispatchLine answers { c with partialLine := rest } line =
        { c with
          server := (dispatch os c.server c.client line).1
          client := (dispatch os c.server c.client line).2.1
          partialLine := rest
          log := c.log ++ [⟨line, (dispatch os c.server c.client line).2.2⟩] } := by
      rw [Control.dispatchLine, if_neg hempty]
    rw [hdispatched]
    obtain ⟨ms, hms⟩ : ∃ ms, run Loop.logged (c.server, c.loop .lines, []) ms =
        some ((dispatch os c.server c.client line).1,
          { c.loop .lines with
            client := (dispatch os c.server c.client line).2.1, partialLine := rest },
          (dispatch os c.server c.client line).2.2) := by
      by_cases hwaits : waitsFor c.client line = none
      · obtain ⟨partialLine, hrest, hmove⟩ := move_line os c.server hcommand
        obtain ⟨-, rfl⟩ := Prod.mk.inj (Option.some.inj (hline.symm.trans hrest))
        refine ⟨[.line os], ?_⟩
        have hwaits' : waitsFor (c.loop .lines).client line = none := hwaits
        rw [hwaits'] at hmove
        simpa [run, Loop.logged, Control.loop] using hmove
      · obtain ⟨ms, partialLine, hrest, hms⟩ := undisturbed_transfer os c.server hcommand hwaits
        obtain ⟨-, rfl⟩ := Prod.mk.inj (Option.some.inj (hline.symm.trans hrest))
        exact ⟨_, hms⟩
    refine ⟨ms, ?_⟩
    have hlogged := logged_append c.effects hms
    simpa [Control.loop, Control.effects] using hlogged

variable (answers) in
theorem drain_refined (fuel : ℕ) (c : Control) : ∃ ms,
    run Loop.logged (c.server, c.loop .lines, c.effects) ms =
      some ((Control.drain answers fuel c).server, (Control.drain answers fuel c).loop .lines,
        (Control.drain answers fuel c).effects) := by
  induction fuel generalizing c with
  | zero => exact ⟨[], rfl⟩
  | succ fuel ih =>
      cases hline : nextLine c.partialLine with
      | none => exact ⟨[], by simp only [Control.drain, hline, run_nil]⟩
      | some next =>
          obtain ⟨line, rest⟩ := next
          obtain ⟨ms, hms⟩ := line_refined answers hline
          obtain ⟨more, hmore⟩ :=
            ih (Control.dispatchLine answers { c with partialLine := rest } line)
          refine ⟨ms ++ more, ?_⟩
          simp only [Control.drain, hline]
          exact run_append hms hmore

theorem lines_end {c : Control} (os : Os) (h : nextLine c.partialLine = none) :
    run Loop.logged (c.server, c.loop .lines, c.effects) [.line os] =
      some (c.server, c.loop .loop, c.effects) := by
  have hmove : (c.loop .lines).move c.server (.line os) = some (c.server, c.loop .loop, []) := by
    simp only [Loop.move, Control.loop, h]
  simp [run, Loop.logged, hmove]

/-- A chunk does to the connection what the client loop does with it, from
one look at the socket to the next. -/
theorem step_refined {c t : Control} {chunk : Text}
    (hstep : Control.step answers c chunk = some t) : ∃ ms,
      run Loop.logged (c.server, c.loop .loop, c.effects) ms =
        some (t.server, t.loop .loop, t.effects) := by
  obtain ⟨⟨hopen, hchunk, -⟩, ht⟩ := Option.ite_none_right_eq_some.mp hstep
  obtain ⟨sock, hsock⟩ := Option.ne_none_iff_exists'.mp hopen
  have hentered : Loop.logged (c.server, c.loop .loop, c.effects) .enter =
      some (c.server, c.loop (.receiving sock), c.effects) := by
    simp [Loop.logged, Loop.move, Control.loop, hsock]
  let appended : Control := { c with partialLine := c.partialLine ++ cStr chunk }
  obtain ⟨ms, hms⟩ := drain_refined answers appended.partialLine.length appended
  have hreceived : Loop.logged (c.server, c.loop (.receiving sock), c.effects)
      (.received (some chunk)) = some (c.server, appended.loop .lines, c.effects) := by
    obtain ⟨character, rest, rfl⟩ := List.exists_cons_of_ne_nil hchunk
    simp [Loop.logged, Loop.move, Control.loop, appended, cStr]
  have hlast : nextLine t.partialLine = none := by
    obtain ⟨-, rfl⟩ := Control.step_eq_some hstep
    exact nextLine_of_notMem (sep_notMem_remainder _)
  obtain rfl := Option.some.inj ht
  exact ⟨_, run_cons_some_iff.mpr ⟨_, hentered, run_cons_some_iff.mpr
    ⟨_, hreceived, run_append hms (lines_end (answers 0) hlast)⟩⟩⟩

/-- So every run over chunks is one of the client loop. -/
theorem run_refined {c t : Control} {chunks : List Text}
    (hrun : run (Control.step answers) c chunks = some t) : ∃ ms,
      run Loop.logged (c.server, c.loop .loop, c.effects) ms =
        some (t.server, t.loop .loop, t.effects) := by
  induction chunks generalizing c with
  | nil =>
      obtain rfl := Option.some.inj hrun
      exact ⟨[], rfl⟩
  | cons chunk chunks ih =>
      obtain ⟨next, hstep, hrest⟩ := run_cons_some_iff.mp hrun
      obtain ⟨ms, hms⟩ := step_refined hstep
      obtain ⟨more, hmore⟩ := ih hrest
      exact ⟨ms ++ more, run_append hms hmore⟩

end Refinement

/-- The line is a QUIT command. -/
def IsQuit (line : Text) : Prop := lineVerb line = some .quit

instance (line : Text) : Decidable (IsQuit line) :=
  inferInstanceAs (Decidable (lineVerb line = some .quit))

section Quit

variable {os : Os} {server server' : Server} {client client' : Client} {line : Text}
  {effects : List Effect}

theorem sock_of_not_quit (h : Dispatched os server client line server' client' effects)
    (hquit : ¬ IsQuit line) : client'.sock = client.sock :=
  h.sock.resolve_right fun hquits => hquit hquits.1

theorem sock_of_quit (os : Os) (server : Server) (client : Client) (hquit : IsQuit line) :
    (dispatch os server client line).2.1.sock = none := by
  rw [dispatch_eq, hquit]
  rfl

end Quit

namespace Control

variable {answers : ℕ → Os} {c : Control}

theorem sock_foldl {ls : List Text} (h : ∀ line ∈ ls, ¬ IsQuit line) (c : Control) :
    (ls.foldl (dispatchLine answers) c).client.sock = c.client.sock := by
  induction ls generalizing c with
  | nil => rfl
  | cons line ls ih =>
      rw [List.foldl_cons, ih fun l hl => h l (List.mem_cons_of_mem _ hl), dispatchLine]
      split
      · rfl
      · exact sock_of_not_quit (dispatched (answers c.log.length) c.server c.client line)
          (h line List.mem_cons_self)

/-- No line follows a QUIT. -/
def QuitsLast (ls : List Text) : Prop :=
  ∀ before line after, ls = before ++ line :: after → IsQuit line → after = []

theorem quitsLast_append {before ls : List Text} (h : ∀ line ∈ before, ¬ IsQuit line) :
    QuitsLast (before ++ ls) ↔ QuitsLast ls := by
  constructor
  · intro hlast front line after hls
    exact hlast (before ++ front) line after (by rw [hls, List.append_assoc])
  · intro hlast front line after hls hquit
    obtain ⟨middle, rfl, rfl⟩ | ⟨middle, rfl, hmiddle⟩ := List.append_eq_append_iff.mp hls
    · exact hlast middle line after rfl hquit
    · cases middle with
      | nil => exact hlast [] line after hmiddle.symm hquit
      | cons first rest =>
          obtain ⟨rfl, -⟩ := List.cons.inj hmiddle
          exact absurd hquit (h line (by simp))

/-- A chunk that completes a QUIT line completes no line after it. -/
def EndsAtQuit (c : Control) (chunk : Text) : Prop :=
  c.client.sock ≠ none → chunk ≠ [] → chunk.length ≤ 4095 →
    QuitsLast (commandsOf (c.partialLine ++ cStr chunk))

/-- What the connection is in as long as QUIT comes last. -/
def Orderly (c : Control) : Prop :=
  QuitsLast c.lines ∧ ∀ line ∈ c.lines, IsQuit line → c.client.sock = none

theorem Orderly.no_quit (h : c.Orderly) (hsock : c.client.sock ≠ none) :
    ∀ line ∈ c.lines, ¬ IsQuit line := fun line hline hquit => hsock (h.2 line hline hquit)

theorem Orderly.step {t : Control} {chunk : Text} (h : c.Orderly) (hends : c.EndsAtQuit chunk)
    (hstep : step answers c chunk = some t) : t.Orderly := by
  obtain ⟨⟨hsock, hchunk, hlength⟩, ht⟩ := step_eq_some hstep
  have hlines := lines_step hstep
  have hbefore := h.no_quit hsock
  have hlast := hends hsock hchunk hlength
  rw [Orderly, hlines]
  refine ⟨(quitsLast_append hbefore).mpr hlast, fun line hline hquit => ?_⟩
  have hmem := (List.mem_append.mp hline).resolve_left fun hmem => hbefore line hmem hquit
  obtain ⟨front, back, hsplit⟩ := List.append_of_mem hmem
  obtain rfl := hlast front line back hsplit hquit
  subst ht
  rw [hsplit, List.foldl_append, List.foldl_cons, List.foldl_nil, dispatchLine,
    if_neg (ne_nil_of_mem_commandsOf hmem)]
  exact sock_of_quit _ _ _ hquit

end Control

/-- A connection before its first `recv`. -/
def Control.start (server : Server) (client : Client) : Control := { server, client }

/-- Nothing after QUIT. For every stream and every way `recv` cuts it into
chunks, no line is dispatched after a QUIT line exactly when no chunk that
completes a QUIT line completes a line after it. -/
theorem nothing_after_quit_iff (answers : ℕ → Os) (server : Server) (client : Client)
    (chunks : List Text) :
    Always (Control.step answers) (fun c => Control.QuitsLast c.lines)
        (Control.start server client) chunks ↔
      Along (Control.step answers) Control.EndsAtQuit (Control.start server client) chunks := by
  refine always_iff_along (I := Control.Orderly) (fun c h => h.1)
    (fun c chunk t h hends hstep => h.step hends hstep) (fun c chunk h hends => ?_) ?_ chunks
  · simp only [Control.EndsAtQuit, Classical.not_imp] at hends
    obtain ⟨hsock, hchunk, hlength, hnot⟩ := hends
    refine ⟨_, Control.step_of_open hsock hchunk hlength, fun hlast => hnot ?_⟩
    rw [Control.lines_step (Control.step_of_open hsock hchunk hlength)] at hlast
    exact (Control.quitsLast_append (h.no_quit hsock)).mp hlast
  · exact ⟨fun before line after h => by simp [Control.start, Control.lines] at h, by
      simp [Control.start, Control.lines]⟩

/-- Log-in, QUIT and MKD in one chunk: the directory is made. -/
theorem mkd_after_quit : ¬ ∀ (answers : ℕ → Os) (server : Server) (client : Client)
    (chunks : List Text), Always (Control.step answers) (fun c => Control.QuitsLast c.lines)
      (Control.start server client) chunks := by
  intro h
  let server : Server :=
    { tmp := "/tmp/ms", users := addAnonymousUser "/" FtpPermission.all [] }
  let chunks : List Text := ["USER anonymous
QUIT
MKD d
"]
  have hrun : ((run (Control.step fun _ => grantingOs)
      (Control.start server { sock := some 4 }) chunks).any fun c =>
        c.lines = ([txt "USER anonymous", txt "QUIT", txt "MKD d"] : List Text) ∧
          (c.log.map Entry.effects)[2]? = some [.mkdir "/tmp/ms/d"]) = true := by
    decide +kernel
  obtain ⟨c, hc, hlines⟩ := (Option.any_eq_true _ _).mp hrun
  have hlast := (h _ server _ chunks).of_run hc
  have hmade := hlast ["USER anonymous"] "QUIT" ["MKD d"] (of_decide_eq_true hlines).1 (by decide)
  cases hmade

namespace Control

variable {answers : ℕ → Os} {c t : Control}

/-- The connection has dispatched the lines of the stream so far and holds
the rest. -/
def UpTo (stream : Text) (c : Control) : Prop :=
  c.lines = commandsOf stream ∧ c.partialLine = remainder '\n' stream

theorem UpTo.step {stream chunk : Text} (h : c.UpTo stream) (hnul : '\x00' ∉ chunk)
    (hstep : step answers c chunk = some t) : t.UpTo (stream ++ chunk) := by
  have hwhole : cStr chunk = chunk := by
    rw [cStr, List.takeWhile_eq_self_iff]
    rintro character hcharacter
    simpa using fun heq : character = '\x00' => hnul (heq ▸ hcharacter)
  refine ⟨?_, ?_⟩
  · rw [lines_step hstep, h.1, h.2, hwhole, ← commandsOf_append]
  · obtain ⟨-, rfl⟩ := step_eq_some hstep
    simp only [h.2, hwhole]
    exact (remainder_append stream chunk).symm

theorem upTo_run {chunks : List Text} {stream : Text} (h : c.UpTo stream)
    (hsock : c.client.sock ≠ none) (hchunks : ∀ chunk ∈ chunks, chunk ≠ [] ∧ chunk.length ≤ 4095)
    (hnul : '\x00' ∉ chunks.flatten)
    (hquit : ∀ line ∈ commandsOf (stream ++ chunks.flatten), ¬ IsQuit line) :
    ∃ t, run (step answers) c chunks = some t ∧ t.UpTo (stream ++ chunks.flatten) := by
  induction chunks generalizing c stream with
  | nil => exact ⟨c, rfl, by simpa using h⟩
  | cons chunk chunks ih =>
      obtain ⟨hne, hlength⟩ := hchunks chunk List.mem_cons_self
      rw [List.flatten_cons, List.mem_append, not_or] at hnul
      rw [List.flatten_cons, ← List.append_assoc] at hquit
      obtain ⟨u, hu⟩ : ∃ u, step answers c chunk = some u := ⟨_, step_of_open hsock hne hlength⟩
      have hupTo := h.step hnul.1 hu
      have hopen : u.client.sock ≠ none := by
        obtain ⟨-, rfl⟩ := step_eq_some hu
        rw [sock_foldl fun line hline => hquit line ?_]
        · exact hsock
        · rw [commandsOf_append, ← hupTo.1, lines_step hu]
          exact List.mem_append_left _ (List.mem_append_right _ hline)
      obtain ⟨t, ht, hlast⟩ :=
        ih hupTo hopen (fun next hnext => hchunks next (List.mem_cons_of_mem _ hnext)) hnul.2 hquit
      rw [List.flatten_cons, ← List.append_assoc]
      exact ⟨t, run_cons_some_iff.mpr ⟨u, hu, ht⟩, hlast⟩

/-- No NUL gets past the append. -/
def NulFree (c : Control) : Prop :=
  '\x00' ∉ c.partialLine ∧ ∀ line ∈ c.lines, '\x00' ∉ line

theorem mem_of_mem_stripCr {line : Text} {character : Char} (h : character ∈ stripCr line) :
    character ∈ line := by
  unfold stripCr at h
  split at h
  · exact List.mem_of_mem_dropLast h
  · exact h

theorem NulFree.step {chunk : Text} (h : c.NulFree) (hstep : step answers c chunk = some t) :
    t.NulFree := by
  have hlines := lines_step hstep
  obtain ⟨-, rfl⟩ := step_eq_some hstep
  have hfree : '\x00' ∉ c.partialLine ++ cStr chunk := by
    rw [List.mem_append, not_or]
    refine ⟨h.1, fun hmem => ?_⟩
    simpa using List.mem_takeWhile_imp hmem
  refine ⟨fun hmem => hfree (mem_of_mem_remainder hmem), fun line hline hmem => ?_⟩
  rw [hlines, List.mem_append] at hline
  refine hline.elim (fun hold => h.2 line hold hmem) fun hnew => ?_
  obtain ⟨segment, hsegment, rfl⟩ := List.mem_map.mp (List.mem_filter.mp hnew).1
  exact hfree (mem_of_mem_segments hsegment (mem_of_mem_stripCr hmem))

/-- A NUL of the stream is in one of its lines or in what is left. -/
theorem nul_mem {stream : Text} (h : '\x00' ∈ stream) :
    (∃ line ∈ commandsOf stream, '\x00' ∈ line) ∨ '\x00' ∈ remainder '\n' stream := by
  refine (mem_segments_or_remainder h (by decide)).imp_left fun ⟨segment, hsegment, hmem⟩ => ?_
  have hstripped : '\x00' ∈ stripCr segment := by
    unfold stripCr
    split
    · next hlast =>
      rw [← List.dropLast_append_getLast? '\r' hlast, List.mem_append] at hmem
      exact hmem.resolve_right (by decide)
    · exact hmem
  refine ⟨stripCr segment, List.mem_filter.mpr ⟨List.mem_map_of_mem hsegment, ?_⟩, hstripped⟩
  simpa using List.ne_nil_of_mem hstripped

end Control

/-- Whatever the chunks, the lines dispatched are those of the stream and
the rest of it is kept, exactly when the stream has no NUL byte. -/
theorem command_stream_iff (answers : ℕ → Os) (server : Server) {client : Client}
    {chunks : List Text} (hsock : client.sock ≠ none)
    (hchunks : ∀ chunk ∈ chunks, chunk ≠ [] ∧ chunk.length ≤ 4095)
    (hquit : ∀ line ∈ commandsOf chunks.flatten, ¬ IsQuit line) :
    (∃ c, run (Control.step answers) (Control.start server client) chunks = some c ∧
        c.lines = commandsOf chunks.flatten ∧ c.partialLine = remainder '\n' chunks.flatten) ↔
      '\x00' ∉ chunks.flatten := by
  constructor
  · rintro ⟨c, hrun, hlines, hremainder⟩ hnul
    obtain ⟨hleft, hdispatched⟩ : c.NulFree :=
      run_invariant (fun _ _ _ h hstep => h.step hstep)
        ⟨by simp [Control.start], by simp [Control.start, Control.lines]⟩ hrun
    rcases Control.nul_mem hnul with ⟨line, hline, hmem⟩ | hmem
    · exact hdispatched line (hlines ▸ hline) hmem
    · exact hleft (hremainder ▸ hmem)
  · intro hnul
    have hstart : (Control.start server client).UpTo [] := ⟨rfl, rfl⟩
    exact Control.upTo_run hstart hsock hchunks hnul hquit

/-- A CR LF pair and a command cut in two. -/
theorem command_stream_cut :
    ∃ c, run (Control.step fun _ => grantingOs) (Control.start { tmp := [] } { sock := some 4 })
        ["NO", "OP\r", "\n\r\nFEAT\nSY"] = some c ∧
      c.lines = commandsOf "NOOP\r\n\r\nFEAT\nSY" ∧
      c.partialLine = remainder '\n' "NOOP\r\n\r\nFEAT\nSY" :=
  (command_stream_iff _ _ (by simp) (by decide) (by decide)).mpr (by decide)

/-- What follows a NUL in its chunk is lost, the end of the line included. -/
theorem command_stream_nul : ¬ ∀ (answers : ℕ → Os) (server : Server) (client : Client)
    (chunks : List Text), client.sock ≠ none →
      (∀ chunk ∈ chunks, chunk ≠ [] ∧ chunk.length ≤ 4095) →
      (∀ line ∈ commandsOf chunks.flatten, ¬ IsQuit line) →
      ∃ c, run (Control.step answers) (Control.start server client) chunks = some c ∧
        c.lines = commandsOf chunks.flatten ∧
        c.partialLine = remainder '\n' chunks.flatten := by
  intro h
  obtain ⟨c, hrun, hlines, -⟩ := h (fun _ => grantingOs) { tmp := [] } { sock := some 4 }
    ["NOOP\r\nMKD \x00\r\nFEAT\r\n"] (by simp) (by decide) (by decide)
  have hdispatched : (run (Control.step fun _ => grantingOs)
      (Control.start { tmp := [] } { sock := some 4 })
      ["NOOP\r\nMKD \x00\r\nFEAT\r\n"]).map Control.lines = some [txt "NOOP"] := by
    decide +kernel
  rw [hrun, Option.map_some, hlines] at hdispatched
  exact absurd hdispatched (by decide)

end MockServices.Ftp
