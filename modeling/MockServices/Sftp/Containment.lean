import MockServices.Sftp.HandlerRules

/-!
# What the SFTP path messages touch

The handlers of OPEN, OPENDIR, STAT, SETSTAT, MKDIR, RMDIR, REMOVE and
RENAME hand only texts to the file system that `resolve_path` answered.
They stay within the root as long as the operating system leads no
path to a lookalike of the root.
-/

namespace MockServices.Sftp

open Foundations Foundations.SegmentPath

variable {σ : Type}

/-- Segment by segment, the path denotes the root or something below it. -/
def Within (root : Canonical) (path : Text) : Prop := root.names <+: denoted path

instance (root : Canonical) (path : Text) : Decidable (Within root path) :=
  inferInstanceAs (Decidable (_ <+: _))

/-- The paths whose objects a call reads, makes, changes or removes. -/
def Call.touched : Call → List Text
  | .os (.fopen path _) | .os (.opendir path) | .os (.stat path) => [path]
  | .os (.mkdir path) | .os (.rmdir path) | .os (.unlink path) => [path]
  | .os (.rename source target) => [source, target]
  | _ => []

def touchedPaths (events : List (Event Call.Answer)) : List Text :=
  events.flatMap fun e => e.1.touched

def realpaths (events : List (Event Call.Answer)) : List Realpath :=
  events.filterMap fun
    | ⟨.os .realpath, realpath⟩ => some realpath
    | _ => none

/-- The paths a message resolves, with `must_exist`. -/
def SftpClientMessage.resolutions (msg : SftpClientMessage) : List (Text × Bool) :=
  match msg.type with
  | .open => [(msg.filename, msg.flags &&& OpenFlags.creat == 0)]
  | .opendir | .stat | .lstat | .setstat | .rmdir | .remove => [(msg.filename, true)]
  | .mkdir => [(msg.filename, false)]
  | .rename =>
      (msg.filename, true) :: (msg.submessage <|> msg.strData).toList.map fun dst => (dst, false)
  | _ => []

/-- The messages that name objects by path and act on them. -/
def MessageType.actsOnPath : MessageType → Bool
  | .open | .opendir | .stat | .lstat | .setstat | .mkdir | .rmdir | .remove | .rename => true
  | _ => false

/-- None of the message's paths leads to a lookalike of the root. -/
def LeadsInside (root : Canonical) (msg : SftpClientMessage) (realpath : Realpath) : Prop :=
  ∀ p ∈ msg.resolutions, ∀ loc ∈ leadsTo realpath root.text p.1 p.2, ¬ Lookalike root loc

/-- Whenever serving the message asks the operating system where a path
leads, it does not lead to a lookalike of the root. -/
def Confined (env : Environment σ) (ctx : SftpContext) (root : Canonical) (s : Session σ)
    (msg : SftpClientMessage) : Prop :=
  ∀ realpath ∈ realpaths (s.serve env ctx msg).events, LeadsInside root msg realpath

/-- Every message served so far that acts on paths stayed within the root. -/
def TouchesWithin (root : Canonical) (s : Session σ) : Prop :=
  ∀ x ∈ s.served, x.msg.type.actsOnPath = true → ∀ path ∈ touchedPaths x.events, Within root path

instance (root : Canonical) (msg : SftpClientMessage) (realpath : Realpath) :
    Decidable (LeadsInside root msg realpath) :=
  inferInstanceAs (Decidable (∀ p ∈ msg.resolutions, _))

instance (env : Environment σ) (ctx : SftpContext) (root : Canonical) (s : Session σ)
    (msg : SftpClientMessage) : Decidable (Confined env ctx root s msg) :=
  inferInstanceAs (Decidable (∀ realpath ∈ realpaths _, _))

theorem mem_realpaths {realpath : Realpath} {events : List (Event Call.Answer)}
    (h : ⟨.os .realpath, realpath⟩ ∈ events) : realpath ∈ realpaths events :=
  List.mem_filterMap.mpr ⟨_, h, rfl⟩

section Message

variable {root : Canonical} {msg : SftpClientMessage} {ctx : SftpContext}

/-- The answers under which a message is contained. -/
def insideAnswer (root : Canonical) (msg : SftpClientMessage) : (c : Call) → c.Answer → Prop
  | .os .realpath, realpath => LeadsInside root msg realpath
  | _, _ => True

def touchesInside (root : Canonical) (c : Call) : Prop := ∀ path ∈ c.touched, Within root path

theorem touchesInside_housekeeping : Housekeeping (touchesInside root) := by
  constructor <;> simp [touchesInside, Call.touched]

theorem touchesInside_handleCalls : HandleCalls (touchesInside root) := by
  constructor <;> simp [touchesInside, Call.touched]

theorem Resolved.within (hroot : ctx.root = root.text) {path full : Text} {mustExist : Bool}
    (hmem : (path, mustExist) ∈ msg.resolutions)
    (h : Resolved (insideAnswer root msg) ctx path mustExist full) : Within root full := by
  obtain ⟨realpath, hinside, rfl, hne⟩ := h
  rw [hroot] at hne ⊢
  exact (resolvePath_within_iff realpath root path mustExist).mpr (hinside _ hmem) hne

/-- A message all of whose paths lead inside touches nothing outside. -/
theorem processSftp_touchesInside (hroot : ctx.root = root.text)
    (hacts : msg.type.actsOnPath = true) :
    Makes (insideAnswer root msg) (touchesInside root) (processSftp ctx msg) := by
  have hk : Housekeeping (touchesInside root) := touchesInside_housekeeping
  have hh : HandleCalls (touchesInside root) := touchesInside_handleCalls
  have hone : ∀ {path full : Text} {mustExist : Bool}, (path, mustExist) ∈ msg.resolutions →
      Resolved (insideAnswer root msg) ctx path mustExist full → ∀ p ∈ [full], Within root p := by
    intro path full mustExist hmem hfull p hp
    exact List.mem_singleton.mp hp ▸ hfull.within hroot hmem
  unfold processSftp
  cases htype : msg.type with
  | «open» =>
      refine makes_sftpDoOpen hk hh fun full _ hfull => ⟨?_, by
        simp [touchesInside, Call.touched]⟩
      exact hone (by simp [SftpClientMessage.resolutions, htype]) hfull
  | opendir =>
      refine makes_sftpDoOpendir hk hh fun full _ hfull => ⟨?_, by
        simp [touchesInside, Call.touched], by simp [touchesInside, Call.touched]⟩
      exact hone (by simp [SftpClientMessage.resolutions, htype]) hfull
  | stat | lstat =>
      refine makes_sftpDoStat hk (fun full hfull => ?_) (by simp [touchesInside, Call.touched])
      exact hone (by simp [SftpClientMessage.resolutions, htype]) hfull
  | setstat => exact makes_sftpDoSetstat hk
  | mkdir =>
      exact makes_sftpDoMkdir hk fun full _ hfull =>
        hone (by simp [SftpClientMessage.resolutions, htype]) hfull
  | rmdir =>
      exact makes_sftpDoRmdir hk fun full _ hfull =>
        hone (by simp [SftpClientMessage.resolutions, htype]) hfull
  | remove =>
      exact makes_sftpDoRemove hk fun full _ hfull =>
        hone (by simp [SftpClientMessage.resolutions, htype]) hfull
  | rename =>
      refine makes_sftpDoRename hk fun src dst dstPath _ hsrc hdstPath hdst => ?_
      have hmem : (dstPath, false) ∈ msg.resolutions := by
        simp [SftpClientMessage.resolutions, htype, hdstPath]
      have hwithin := hsrc.within hroot (by simp [SftpClientMessage.resolutions, htype])
      simpa [touchesInside, Call.touched] using ⟨hwithin, hdst.within hroot hmem⟩
  | _ => simp [htype, MessageType.actsOnPath] at hacts

theorem serve_touchesInside {env : Environment σ} {s : Session σ} (hroot : ctx.root = root.text)
    (hacts : msg.type.actsOnPath = true) (hconfined : Confined env ctx root s msg) :
    ∀ path ∈ touchedPaths (s.serve env ctx msg).events, Within root path := by
  intro path hpath
  obtain ⟨e, he, hmem⟩ := List.mem_flatMap.mp hpath
  refine (processSftp_touchesInside hroot hacts).events (fun e he => ?_) e he path hmem
  obtain ⟨c, answer⟩ := e
  cases c with
  | os c =>
      cases c with
      | realpath => exact hconfined answer (mem_realpaths he)
      | _ => trivial
  | _ => trivial

end Message

/-- Containment of the path messages. One resolution answers within the
root exactly when the path does not lead to a lookalike, whatever the
file system; and a session whose paths never do touches nothing outside. -/
theorem path_messages_contained_iff (root : Canonical) :
    (∀ (realpath : Realpath) (clientPath : Text) (mustExist : Bool),
      (resolvePath realpath root.text clientPath mustExist ≠ [] →
        Within root (resolvePath realpath root.text clientPath mustExist)) ↔
      ∀ loc ∈ leadsTo realpath root.text clientPath mustExist, ¬ Lookalike root loc) ∧
    (∀ (σ : Type) (env : Environment σ) (ctx : SftpContext), ctx.root = root.text →
      ∀ init msgs,
      Along (step env ctx) (Confined env ctx root) (Session.start init) msgs →
      Always (step env ctx) (TouchesWithin root) (Session.start init) msgs) := by
  refine ⟨fun realpath => resolvePath_within_iff realpath root,
    fun σ env ctx hroot init msgs hall => ?_⟩
  refine always_of_invariant_along (I := TouchesWithin root) ?_ (fun _ h => h) ?_ hall
  · intro s msg t hs hconfined hstep
    obtain ⟨-, rfl⟩ := step_eq_some_iff.mp hstep
    intro x hx hacts
    rcases List.mem_append.mp hx with hx | hx
    · exact hs x hx hacts
    · obtain rfl := List.mem_singleton.mp hx
      exact serve_touchesInside hroot hacts hconfined
  · simp [TouchesWithin, Session.start]

/-! ## A neighbour whose name begins with the root's -/

/-- `realpath` in a file system of the given objects, without symbolic links. -/
def treeWalk (objects : List (List Text)) : List Text → List (Move Char) → Option (List Text)
  | here, [] => some here
  | here, .stay :: ms => treeWalk objects here ms
  | here, .up :: ms => treeWalk objects here.dropLast ms
  | here, .down name :: ms =>
      if here ++ [name] ∈ objects then treeWalk objects (here ++ [name]) ms else none

def treeRealpath (objects : List (List Text)) : Realpath := fun path =>
  if path.head? = some '/' then
    (treeWalk objects [] (moves '/' '.' path)).bind fun names =>
      if h : ∀ n ∈ names, IsName '/' '.' n then some ⟨names, h⟩ else none
  else none

def srvRealpath : Realpath :=
  treeRealpath [["srv"], ["srv", "bob"], ["srv", "bob", "notes"], ["srv", "bobby"],
    ["srv", "bobby", "x"]]

def bobRoot : Canonical where
  names := ["srv", "bob"]
  isName := by decide

def bobContext : SftpContext where
  username := "bob"
  root := bobRoot.text
  perm := SftpPermission.all

theorem path_messages_contained_iff_bob :
    Always (step (granting srvRealpath [] []) bobContext) (TouchesWithin bobRoot) (Session.start ())
      [{ type := .stat, filename := "notes" }, { type := .mkdir, filename := "/sub/../new" },
        { type := .rename, filename := "notes", submessage := some (txt "old") }] :=
  (path_messages_contained_iff bobRoot).2 Unit (granting srvRealpath [] []) bobContext rfl () _
    (by decide +kernel)

/-- With the root `/srv/bob` the path `../bobby/x` is answered with `/srv/bobby/x`. -/
theorem path_messages_not_contained :
    ¬ ∀ (realpath : Realpath) (root : Canonical) (clientPath : Text) (mustExist : Bool),
      resolvePath realpath root.text clientPath mustExist ≠ [] →
        Within root (resolvePath realpath root.text clientPath mustExist) := by
  intro h
  exact absurd (h srvRealpath bobRoot "../bobby/x" true (by decide +kernel)) (by decide +kernel)

end MockServices.Sftp
