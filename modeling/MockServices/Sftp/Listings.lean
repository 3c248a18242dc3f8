import MockServices.Foundations.Enumeration
import MockServices.Sftp.OpenSemantics
import MockServices.Sftp.ReadPermission

/-!
# What READDIR enumerates

On a POSIX system a handler reads the next entry from the directory stream
and goes on while it is `.` or `..`. On Windows it starts a search at the
first message, takes the entry that the start has brought, and goes on
likewise. Both give the entries of the directory one by one.
-/

namespace MockServices.Sftp

open Foundations Foundations.Program

variable {σ : Type}

def isSpecial (entry : Text) : Bool := entry = ['.'] ∨ entry = ['.', '.']

/-- The entries that are to be listed. -/
def ordinary (listing : List Text) : List Text := listing.filter fun entry => !isSpecial entry

/-- A reply without the attributes, which come from different calls on the
two systems. -/
def Reply.bare : Reply → Reply
  | .name entry _ => .name entry none
  | r => r

/-- The reply for the next entry, or for the end of the listing, bare. -/
def entryReply : Option Text → List Reply
  | some entry => [.name entry none]
  | none => [.status .eof none]

/-- The attributes that `make_attr` makes. -/
def attributesOf (name : Text) (st : FileStat) : SftpAttributes where
  name := name
  size := st.size
  permissions := st.mode
  atime := BitVec.ofInt 32 st.atime
  mtime := BitVec.ofInt 32 st.mtime
  flags := 0x0d
  type := if st.mode &&& sIfdir ≠ 0 then .directory
    else if st.mode &&& sIfreg ≠ 0 then .regular else .unknown

/-- The directory streams of the environment: a stream that is opened has
the listing of its directory to give, `setEntries` leaves what it says,
and the other calls change no stream. -/
structure Lists (env : Environment σ) (left : σ → DirPtr → List Text) (listing : Text → List Text) :
    Prop where
  opened : ∀ e path dir, (env.answer e (.opendir path)).1 = some dir →
    left (env.answer e (.opendir path)).2 dir = listing path
  entries : ∀ e dir, (env.answer e (.entries (some dir))).1 = left e dir
  setEntries : ∀ e dir rest, left (env.answer e (.setEntries (some dir) rest)).2 dir = rest
  entries_keeps : ∀ e dir, left (env.answer e (.entries (some dir))).2 = left e
  stat_keeps : ∀ e path, left (env.answer e (.stat path)).2 = left e
  calloc_keeps : ∀ e, left (env.answer e .calloc).2 = left e
  reply_keeps : ∀ e reply, left (env.answer e (.reply reply)).2 = left e

/-- One READDIR of the handle: the replies, and the session after it. -/
def readdir (env : Environment σ) (ctx : SftpContext) (slot : Slot) (s : Session σ) :
    List Reply × Session σ :=
  let msg : SftpClientMessage := { type := .readdir, handle := some slot }
  (replies (s.serve env ctx msg).events, (step env ctx s msg).getD s)

/-! ## The search on Windows -/

/-- The fields of `WIN32_FIND_DATAA` that the handler reads. -/
structure FindData where
  cFileName : Text
  directory : Bool
  size : BitVec 64
  lastWriteTime : ℤ
  lastAccessTime : ℤ

/-- What `win32_find_to_attr` makes of the entry, as `stat` would put it. -/
def FindData.stat (ffd : FindData) : FileStat where
  size := ffd.size
  mode := if ffd.directory then sIfdir ||| 0o755 else sIfreg ||| 0o644
  mtime := ffd.lastWriteTime
  atime := ffd.lastAccessTime

/-- The reply for the next entry of a search, or for its end. -/
def foundReply : Option FindData → List Reply
  | some ffd => [.name ffd.cFileName (some (attributesOf ffd.cFileName ffd.stat))]
  | none => [.status .eof none]

/-- `DirData` on Windows. A search is what it has still to give; `none` is
`INVALID_HANDLE_VALUE`. -/
structure WinDirData where
  hFind : Option (List FindData) := none
  ffd : Option FindData := none
  first : Bool := true

/-- `FindFirstFileA` on the directory's pattern. -/
def findFirstFile (found : List FindData) (dd : WinDirData) : Bool × WinDirData :=
  match found with
  | [] => (false, { dd with hFind := none, first := false })
  | entry :: rest => (true, { hFind := some rest, ffd := some entry, first := false })

/-- `FindNextFileA`; it fails for an invalid handle. -/
def findNextFile (dd : WinDirData) : Bool × WinDirData :=
  match dd.hFind with
  | some (entry :: rest) => (true, { dd with hFind := some rest, ffd := some entry })
  | _ => (false, dd)

/-- The loop that goes on while `ffd` is `.` or `..`: whether it comes to
another entry, `ffd` then, and what is left. -/
def skipSpecial (ffd : FindData) : List FindData → Bool × FindData × List FindData
  | [] => (!isSpecial ffd.cFileName, ffd, [])
  | entry :: rest =>
      if isSpecial ffd.cFileName then skipSpecial entry rest else (true, ffd, entry :: rest)

def win32FindToAttr (ffd : FindData) : Handler (Option SftpAttributes) :=
  makeAttr ffd.cFileName ffd.size (if ffd.directory then sIfdir ||| 0o755 else sIfreg ||| 0o644)
    ffd.lastWriteTime ffd.lastAccessTime

def replyFound (ffd : FindData) : Handler Unit := do
  match ← win32FindToAttr ffd with
  | none => replyStatus .failure
  | some attr => replyOrFail (.name ffd.cFileName (some attr))

/-- READDIR on Windows, behind the look-up of the handle. -/
def sftpDoReaddirWin (found : List FindData) (dd : WinDirData) : Handler Unit × WinDirData :=
  match if dd.first then findFirstFile found dd else findNextFile dd with
  | (true, ⟨some rest, some ffd, first⟩) =>
      let (more, ffd, rest) := skipSpecial ffd rest
      (if more then replyFound ffd else replyStatus .eof, ⟨some rest, some ffd, first⟩)
  | (_, dd) => (replyStatus .eof, dd)

/-- One READDIR of a handle on Windows. -/
def readdirWin (env : Environment σ) (found : List FindData) (state : World σ × WinDirData) :
    List Reply × World σ × WinDirData :=
  let (handler, dd) := sftpDoReaddirWin found state.2
  let x := handler.execute (perform env) state.1
  (replies x.events, x.world, dd)

/-! ## The next entry -/

theorem ordinary_cons (entry : Text) (rest : List Text) :
    ordinary (entry :: rest) =
      if isSpecial entry then ordinary rest else entry :: ordinary rest := by
  unfold ordinary
  rw [List.filter_cons]
  cases isSpecial entry <;> rfl

theorem readEntry_eq (listing : List Text) :
    (readEntry listing).1 = (ordinary listing).head? ∧
      ordinary (readEntry listing).2 = (ordinary listing).tail := by
  induction listing with
  | nil => exact ⟨rfl, rfl⟩
  | cons entry rest ih =>
      rw [readEntry, ordinary_cons]
      by_cases h : entry = ['.'] ∨ entry = ['.', '.']
      · have hspecial : isSpecial entry = true := decide_eq_true h
        rw [if_pos h, if_pos hspecial]
        exact ih
      · have hspecial : isSpecial entry = false := decide_eq_false h
        rw [if_neg h, hspecial]
        exact ⟨rfl, rfl⟩

/-- The entries of a search that are to be listed. -/
def ordinaryFound (found : List FindData) : List FindData :=
  found.filter fun ffd => !isSpecial ffd.cFileName

theorem map_ordinaryFound (found : List FindData) :
    (ordinaryFound found).map FindData.cFileName = ordinary (found.map FindData.cFileName) := by
  unfold ordinary ordinaryFound
  rw [List.filter_map]
  rfl

theorem bare_foundReply (next : Option FindData) :
    (foundReply next).map Reply.bare = entryReply (next.map FindData.cFileName) := by
  cases next <;> rfl

theorem ordinaryFound_cons (ffd : FindData) (rest : List FindData) :
    ordinaryFound (ffd :: rest) =
      if isSpecial ffd.cFileName then ordinaryFound rest else ffd :: ordinaryFound rest := by
  unfold ordinaryFound
  rw [List.filter_cons]
  cases isSpecial ffd.cFileName <;> rfl

theorem skipSpecial_eq (ffd : FindData) (rest : List FindData) :
    (if (skipSpecial ffd rest).1 then some (skipSpecial ffd rest).2.1 else none) =
        (ordinaryFound (ffd :: rest)).head? ∧
      ordinaryFound (skipSpecial ffd rest).2.2 = (ordinaryFound (ffd :: rest)).tail := by
  induction rest generalizing ffd with
  | nil =>
      rw [skipSpecial, ordinaryFound_cons]
      cases isSpecial ffd.cFileName <;> exact ⟨rfl, rfl⟩
  | cons entry rest ih =>
      rw [skipSpecial, ordinaryFound_cons]
      cases isSpecial ffd.cFileName with
      | true => exact ih entry
      | false => exact ⟨rfl, rfl⟩

/-! ## Windows -/

section Windows

variable {env : Environment σ}

/-- One reply is sent, and it succeeds. -/
theorem replies_replyStatus (env : Environment σ) (code : StatusCode) (w : World σ) :
    replies ((replyStatus code).execute (perform env) w).events = [.status code none] := by
  unfold replyStatus reply
  rw [request_bind, execute_call_ok _ (perform_os _)]
  rfl

theorem execute_replyOrFail (hdelivers : env.Delivers) (r : Reply) (w : World σ) :
    (replyOrFail r).execute (perform env) w =
      ⟨[⟨.os (.reply r), true⟩], { w with env := (env.answer w.env (.reply r)).2 }, .ok ()⟩ := by
  unfold replyOrFail reply
  rw [request_bind, execute_call_ok _ (perform_os _), hdelivers, if_pos rfl]
  rfl

theorem replies_replyFound (hdelivers : env.Delivers) (hallocates : env.Allocates) (ffd : FindData)
    (w : World σ) :
    replies ((replyFound ffd).execute (perform env) w).events = foundReply (some ffd) := by
  unfold replyFound win32FindToAttr makeAttr
  rw [request_bind, call_bind, execute_call_ok _ (perform_os _), hallocates, if_pos rfl,
    pure_eq_done, done_bind, Execution.after_events, replies_append]
  dsimp only
  rw [execute_replyOrFail hdelivers]
  rfl

/-- The search has the entries still to give. -/
def WinDirData.Holds (found : List FindData) (dd : WinDirData) (items : List FindData) : Prop :=
  items = if dd.first then ordinaryFound found else ordinaryFound (dd.hFind.getD [])

/-- A call that has brought an entry, or has not. -/
theorem sftpDoReaddirWin_brought {found : List FindData} {dd : WinDirData}
    {entry : FindData} {rest : List FindData}
    (h : (if dd.first then findFirstFile found dd else findNextFile dd) =
      (true, ⟨some rest, some entry, false⟩)) :
    sftpDoReaddirWin found dd =
      (if (skipSpecial entry rest).1 then replyFound (skipSpecial entry rest).2.1
        else replyStatus .eof,
        ⟨some (skipSpecial entry rest).2.2, some (skipSpecial entry rest).2.1, false⟩) := by
  rw [sftpDoReaddirWin, h]

theorem readdirWin_brought (hdelivers : env.Delivers) (hallocates : env.Allocates)
    {found : List FindData} {dd : WinDirData} {entry : FindData} {rest : List FindData}
    (h : (if dd.first then findFirstFile found dd else findNextFile dd) =
      (true, ⟨some rest, some entry, false⟩)) (w : World σ) :
    (readdirWin env found (w, dd)).1 = foundReply (ordinaryFound (entry :: rest)).head? ∧
      (readdirWin env found (w, dd)).2.2.Holds found (ordinaryFound (entry :: rest)).tail := by
  obtain ⟨hhead, htail⟩ := skipSpecial_eq entry rest
  unfold readdirWin
  rw [sftpDoReaddirWin_brought h, ← hhead, ← htail]
  refine ⟨?_, rfl⟩
  dsimp only
  split
  · exact replies_replyFound hdelivers hallocates _ w
  · exact replies_replyStatus env _ w

theorem readdirWin_failed (env : Environment σ) (found : List FindData) (dd : WinDirData)
    {dd' : WinDirData}
    (h : (if dd.first then findFirstFile found dd else findNextFile dd) = (false, dd'))
    (w : World σ) :
    (readdirWin env found (w, dd)).1 = foundReply none ∧
      (readdirWin env found (w, dd)).2.2 = dd' := by
  unfold readdirWin sftpDoReaddirWin
  rw [h]
  exact ⟨replies_replyStatus env _ w, rfl⟩

theorem gives_readdirWin (hdelivers : env.Delivers) (hallocates : env.Allocates)
    (found : List FindData) :
    Gives (readdirWin env found) id foundReply fun state items => state.2.Holds found items := by
  have hstep : ∀ (state : World σ × WinDirData) (items : List FindData),
      state.2.Holds found items → (readdirWin env found state).1 = foundReply items.head? ∧
        (readdirWin env found state).2.2.Holds found items.tail := by
    rintro ⟨w, dd⟩ items hitems
    obtain ⟨hFind, ffd, first⟩ := dd
    cases first with
    | true =>
        obtain rfl : items = ordinaryFound found := hitems
        cases found with
        | nil =>
            obtain ⟨hreplies, hdd⟩ := readdirWin_failed env [] ⟨hFind, ffd, true⟩ rfl w
            exact ⟨hreplies, hdd ▸ rfl⟩
        | cons entry rest => exact readdirWin_brought hdelivers hallocates rfl w
    | false =>
        obtain rfl : items = ordinaryFound (hFind.getD []) := hitems
        rcases hFind with _ | _ | ⟨entry, rest⟩
        · obtain ⟨hreplies, hdd⟩ := readdirWin_failed env found ⟨none, ffd, false⟩ rfl w
          exact ⟨hreplies, hdd ▸ rfl⟩
        · obtain ⟨hreplies, hdd⟩ := readdirWin_failed env found ⟨some [], ffd, false⟩ rfl w
          exact ⟨hreplies, hdd ▸ rfl⟩
        · exact readdirWin_brought hdelivers hallocates rfl w
  exact ⟨fun state items h => (hstep state items h).1, fun state items h => (hstep state items h).2⟩

end Windows

/-! ## POSIX -/

section Posix

variable {env : Environment σ} {ctx : SftpContext} {msg : SftpClientMessage} {slot : Slot}
  {left : σ → DirPtr → List Text} {listing : Text → List Text}

/-- The handle is of an open directory at the path, whose stream has the
entries still to give. -/
structure Session.Listing (s : Session σ) (left : σ → DirPtr → List Text) (slot : Slot)
    (path : Text) (items : List Text) : Prop where
  fault : s.fault = none
  opened : ∃ info dir, s.world.table slot = some info ∧
    s.world.live info = some (.directory ⟨path, some dir⟩) ∧ items = ordinary (left s.world.env dir)

theorem execute_withDir {w : World σ} {info : ObjectId} {dd : DirData}
    (hnamed : w.named msg = some info) (hlive : w.live info = some (.directory dd))
    (next : DirData → Handler Unit) :
    (withDir msg next).execute (perform env) w =
      ((next dd).execute (perform env) w).after
        [⟨.handle msg.handle, some info⟩, ⟨.dir info, dd⟩] := by
  have hdir : perform env w (.dir info) = .ok (dd, w) := perform_dir_eq_ok_iff.mpr ⟨hlive, rfl⟩
  unfold withDir
  rw [execute_withHandle_some hnamed, request_bind, execute_call_ok _ hdir, Execution.after_after]
  rfl

/-- What READDIR does with an entry that is to be listed. -/
def replyOrdinary (path entry : Text) : Handler Unit := do
  match ← statToAttr (path ++ '/' :: entry) entry with
  | some attr => replyOrFail (.name entry (some attr))
  | none =>
      let attr ← makeAttr entry 0 (sIfreg ||| 0o644) 0 0
      replyOrFail (.name entry attr)

/-- What READDIR does with the next entry. -/
def replyNext (path : Text) : Option Text → Handler Unit
  | none => replyStatus .eof
  | some entry => replyOrdinary path entry

/-- The reply shows the next entry, with the attributes that `stat` tells if
it tells them at any time, or the end of the listing. -/
def Shows (env : Environment σ) (path : Text) : Option Text → List Reply → Prop
  | some entry, sent => ∃ attr, sent = [.name entry attr] ∧
      ∀ st, env.Allocates → (∀ e, (env.answer e (.stat (path ++ '/' :: entry))).1 = some st) →
        attr = some (attributesOf entry st)
  | none, sent => sent = [.status .eof none]

/-- The replies and the world that is left, by an environment in which no
stream is touched. -/
structure Answers (env : Environment σ) (left : σ → DirPtr → List Text) (w : World σ)
    (p : Handler Unit) (Sent : List Reply → Prop) : Prop where
  ok : (p.execute (perform env) w).error? = none
  replies : Sent (replies (p.execute (perform env) w).events)
  world : ∃ e, left e = left w.env ∧ (p.execute (perform env) w).world = { w with env := e }

section Sent

variable {w : World σ} {Sent : List Reply → Prop}

theorem answers_after {c : OsCall} {next : c.Answer → Handler Unit}
    (hsilent : isReply (.os c) = false) (hkeeps : left (env.answer w.env c).2 = left w.env)
    (h : Answers env left { w with env := (env.answer w.env c).2 }
      (next (env.answer w.env c).1) Sent) : Answers env left w (os c >>= next) Sent := by
  have hreplies : replies [⟨.os c, (env.answer w.env c).1⟩] = [] := by
    cases c with
    | reply r => cases hsilent
    | _ => rfl
  obtain ⟨e, he, hworld⟩ := h.world
  have hexecute : (os c >>= next).execute (perform env) w =
      ((next (env.answer w.env c).1).execute (perform env)
        { w with env := (env.answer w.env c).2 }).after [⟨.os c, (env.answer w.env c).1⟩] :=
    execute_call_ok _ (perform_os c)
  refine ⟨?_, ?_, e, he.trans hkeeps, ?_⟩
  · rw [hexecute]
    exact h.ok
  · rw [hexecute, Execution.after_events, replies_append, hreplies]
    exact h.replies
  · rw [hexecute]
    exact hworld

theorem answers_replyOrFail (henv : Lists env left listing) (hdelivers : env.Delivers) {r : Reply}
    (hsent : Sent [r]) (w : World σ) : Answers env left w (replyOrFail r) Sent := by
  have hexecute := execute_replyOrFail hdelivers r w
  refine ⟨?_, ?_, (env.answer w.env (.reply r)).2, henv.reply_keeps _ _, ?_⟩ <;> rw [hexecute]
  · rfl
  · exact hsent

theorem answers_eof (henv : Lists env left listing) (hsent : Sent [.status .eof none])
    (w : World σ) : Answers env left w (replyStatus .eof) Sent := by
  refine ⟨rfl, ?_, (env.answer w.env (.reply (.status .eof none))).2, henv.reply_keeps _ _, rfl⟩
  rw [replies_replyStatus]
  exact hsent

theorem answers_makeAttr (henv : Lists env left listing) {name : Text} (st : FileStat)
    {next : Option SftpAttributes → Handler Unit}
    (hmade : ∀ w, Answers env left w (next (some (attributesOf name st))) Sent)
    (hfailed : ¬ env.Allocates → ∀ w, Answers env left w (next none) Sent) (w : World σ) :
    Answers env left w (makeAttr name st.size st.mode st.mtime st.atime >>= next) Sent := by
  refine answers_after rfl (henv.calloc_keeps _) ?_
  cases hcalloc : (env.answer w.env .calloc).1 with
  | true => exact hmade _
  | false =>
      refine hfailed (fun hallocates => ?_) _
      rw [hallocates] at hcalloc
      cases hcalloc

end Sent

theorem answers_replyOrdinary (henv : Lists env left listing) (hdelivers : env.Delivers)
    (path entry : Text) (w : World σ) :
    Answers env left w (replyOrdinary path entry) (Shows env path (some entry)) := by
  refine answers_after rfl (henv.stat_keeps _ _) ?_
  cases hstat : (env.answer w.env (.stat (path ++ '/' :: entry))).1 with
  | none =>
      have hunknown : ∀ attr, Shows env path (some entry) [.name entry attr] := by
        refine fun attr => ⟨attr, rfl, fun st _ hst => ?_⟩
        rw [hst] at hstat
        cases hstat
      apply answers_makeAttr henv ⟨0, sIfreg ||| 0o644, 0, 0⟩
      · exact answers_replyOrFail henv hdelivers (hunknown _)
      · exact fun _ => answers_replyOrFail henv hdelivers (hunknown _)
  | some st =>
      apply answers_makeAttr henv st
      · intro w
        refine answers_replyOrFail henv hdelivers ⟨_, rfl, fun st' _ hst => ?_⟩ w
        rw [hst] at hstat
        cases hstat
        rfl
      · intro hscarce
        have hunknown : ∀ attr, Shows env path (some entry) [.name entry attr] :=
          fun attr => ⟨attr, rfl, fun _ hallocates _ => (hscarce hallocates).elim⟩
        apply answers_makeAttr henv ⟨0, sIfreg ||| 0o644, 0, 0⟩
        · exact answers_replyOrFail henv hdelivers (hunknown _)
        · exact fun _ => answers_replyOrFail henv hdelivers (hunknown _)

theorem answers_replyNext (henv : Lists env left listing) (hdelivers : env.Delivers) (path : Text)
    (next : Option Text) (w : World σ) :
    Answers env left w (replyNext path next) (Shows env path next) := by
  cases next with
  | none =>
      have hend : Shows env path none [.status .eof none] := rfl
      exact answers_eof henv hend w
  | some entry => exact answers_replyOrdinary henv hdelivers path entry w

theorem replyEntry_eq (path : Text) (dir : DirPtr) :
    replyEntry ⟨path, some dir⟩ = (do
      let entries ← os (.entries (some dir))
      os (.setEntries (some dir) (readEntry entries).2)
      replyNext path (readEntry entries).1) := rfl

/-- The next entry is taken off the stream, and shown. -/
theorem execute_replyEntry (henv : Lists env left listing) (hdelivers : env.Delivers) (path : Text)
    (dir : DirPtr) (w : World σ) :
    let x := (replyEntry ⟨path, some dir⟩).execute (perform env) w
    x.error? = none ∧ Shows env path (readEntry (left w.env dir)).1 (replies x.events) ∧
      ∃ e, left e dir = (readEntry (left w.env dir)).2 ∧ x.world = { w with env := e } := by
  let rest := (readEntry (left w.env dir)).2
  obtain ⟨e₁, he₁⟩ : ∃ e, e = (env.answer w.env (.entries (some dir))).2 := ⟨_, rfl⟩
  obtain ⟨e₂, he₂⟩ : ∃ e, e = (env.answer e₁ (.setEntries (some dir) rest)).2 := ⟨_, rfl⟩
  have hentries : perform env w (.os (.entries (some dir))) =
      .ok (left w.env dir, { w with env := e₁ }) := by
    rw [perform_os, henv.entries, he₁]
  have hset : perform env { w with env := e₁ } (.os (.setEntries (some dir) rest)) =
      .ok ((), { w with env := e₂ }) := by
    rw [he₂]
    rfl
  have hexecute : (replyEntry ⟨path, some dir⟩).execute (perform env) w =
      (((replyNext path (readEntry (left w.env dir)).1).execute (perform env)
        { w with env := e₂ }).after [⟨.os (.setEntries (some dir) rest), ()⟩]).after
          [⟨.os (.entries (some dir)), left w.env dir⟩] := by
    rw [replyEntry_eq, request_bind, execute_call_ok _ hentries, request_bind,
      execute_call_ok _ hset]
  have hnext := answers_replyNext henv hdelivers path (readEntry (left w.env dir)).1
    { w with env := e₂ }
  obtain ⟨e, he, hworld⟩ := hnext.world
  dsimp only
  rw [hexecute]
  refine ⟨hnext.ok, hnext.replies, e, ?_, hworld⟩
  rw [he, he₂]
  exact henv.setEntries _ _ _

/-- One READDIR shows the first entry that is left, and leaves the others. -/
theorem Session.Listing.readdir (ctx : SftpContext) (henv : Lists env left listing)
    (hdelivers : env.Delivers) {s : Session σ} {path : Text} {items : List Text}
    (h : s.Listing left slot path items) :
    Shows env path items.head? (readdir env ctx slot s).1 ∧
      (readdir env ctx slot s).2.Listing left slot path items.tail := by
  obtain ⟨hfault, info, dir, hslot, hlive, rfl⟩ := h
  let msg : SftpClientMessage := { type := .readdir, handle := some slot }
  have hnamed : s.world.named msg = some info := hslot
  obtain ⟨hhead, htail⟩ := readEntry_eq (left s.world.env dir)
  obtain ⟨hok, hreplies, e, he, hworld⟩ := execute_replyEntry henv hdelivers path dir s.world
  have hserve : s.serve env ctx msg =
      ((replyEntry ⟨path, some dir⟩).execute (perform env) s.world).after
        [⟨.handle (some slot), some info⟩, ⟨.dir info, ⟨path, some dir⟩⟩] :=
    execute_withDir hnamed hlive replyEntry
  obtain ⟨t, ht⟩ : ∃ t, step env ctx s msg = some t := ⟨_, step_eq_some_iff.mpr ⟨hfault, rfl⟩⟩
  obtain ⟨-, hafter⟩ := step_eq_some_iff.mp ht
  have hgetD : (step env ctx s msg).getD s = t := by
    rw [ht]
    rfl
  have hreaddir : Sftp.readdir env ctx slot s = (replies (s.serve env ctx msg).events, t) :=
    congrArg (Prod.mk _) hgetD
  rw [hreaddir]
  constructor
  · rw [← hhead, hserve]
    exact hreplies
  · have hworld' : t.world = { s.world with env := e } := by
      rw [hafter, hserve]
      exact hworld
    refine ⟨?_, info, dir, ?_, ?_, ?_⟩
    · rw [hafter, hserve]
      exact hok
    · rw [hworld']
      exact hslot
    · rw [hworld']
      exact hlive
    · rw [hworld', ← htail, ← he]

theorem Shows.bare {path : Text} {next : Option Text} {sent : List Reply}
    (h : Shows env path next sent) : sent.map Reply.bare = entryReply next := by
  cases next with
  | none =>
      obtain rfl : sent = [.status .eof none] := h
      rfl
  | some entry =>
      obtain ⟨attr, rfl, -⟩ := h
      rfl

/-- `stat` tells at any time what the search has found. -/
def Agrees (env : Environment σ) (path : Text) (found : List FindData) : Prop :=
  ∀ ffd ∈ found, ∀ e, (env.answer e (.stat (path ++ '/' :: ffd.cFileName))).1 = some ffd.stat

theorem Shows.found (hallocates : env.Allocates) {path : Text} {items : List FindData}
    (hagrees : Agrees env path items) {sent : List Reply}
    (h : Shows env path (items.map FindData.cFileName).head? sent) :
    sent = foundReply items.head? := by
  cases items with
  | nil => exact h
  | cons ffd rest =>
      obtain ⟨attr, rfl, hattr⟩ := h
      rw [hattr ffd.stat hallocates (hagrees ffd List.mem_cons_self)]
      rfl

theorem gives_readdir_bare (henv : Lists env left listing) (hdelivers : env.Delivers)
    (path : Text) :
    Gives (readdir env ctx slot) (List.map Reply.bare) entryReply
      fun s items => s.Listing left slot path items where
  output _ _ h := (h.readdir ctx henv hdelivers).1.bare
  next _ _ h := (h.readdir ctx henv hdelivers).2

theorem gives_readdir (ctx : SftpContext) (henv : Lists env left listing) (hdelivers : env.Delivers)
    (hallocates : env.Allocates) (path : Text) :
    Gives (readdir env ctx slot) id foundReply fun s items =>
      s.Listing left slot path (items.map FindData.cFileName) ∧ Agrees env path items where
  output _ _ h := (h.1.readdir ctx henv hdelivers).1.found hallocates h.2
  next s items h := by
    obtain ⟨hlisting, hagrees⟩ := h
    have hnext := (hlisting.readdir ctx henv hdelivers).2
    rw [← List.map_tail] at hnext
    exact ⟨hnext, fun ffd hffd => hagrees ffd (List.mem_of_mem_tail hffd)⟩

theorem execute_giveHandle {w : World σ} (operation path : Text) (info : ObjectId)
    (data : HandleData) (hchoose : env.slots.choose w.table = some slot)
    (hsent : (env.answer w.env (.reply (.handle slot))).1 = true) :
    (giveHandle ctx operation path info data).execute (perform env) w =
      ⟨[⟨.handleAlloc info, some slot⟩, ⟨.os (.reply (.handle slot)), true⟩,
        ⟨.logActivity ctx.username operation path "OK", ()⟩],
        { w with
          env := (env.answer w.env (.reply (.handle slot))).2
          table := w.table.put slot info }, .ok ()⟩ := by
  have halloc : perform env w (.handleAlloc info) =
      .ok (some slot, { w with table := w.table.put slot info }) := by
    rw [perform_handleAlloc, hchoose]
  unfold giveHandle reply
  rw [request_bind, execute_call_ok _ halloc]
  dsimp only
  rw [request_bind, execute_call_ok _ (perform_os _), hsent, if_pos rfl]
  rfl

theorem execute_opendir {w : World σ} {e : σ} {full : Text} {dir : DirPtr}
    (hperm : canRead ctx.perm = true)
    (hresolved : resolvedIn env ctx w.env msg.filename true = some (e, full))
    (hdir : (env.answer e (.opendir full)).1 = some dir) :
    (sftpDoOpendir ctx msg).execute (perform env) w =
      ((giveHandle ctx "OPENDIR" msg.filename w.objects.length
        (.directory ⟨full, some dir⟩)).execute (perform env) ⟨(env.answer e (.opendir full)).2,
          w.table, w.objects ++ [⟨.directory ⟨full, some dir⟩, false⟩]⟩).after
        [⟨.os .realpath, (env.answer w.env .realpath).1⟩,
          ⟨.new (.directory ⟨full, none⟩), w.objects.length⟩, ⟨.os (.opendir full), some dir⟩,
          ⟨.store w.objects.length (.directory ⟨full, some dir⟩), ()⟩] := by
  have hstore : perform env ⟨(env.answer e (.opendir full)).2, w.table,
      w.objects ++ [⟨.directory ⟨full, none⟩, false⟩]⟩
        (.store w.objects.length (.directory ⟨full, some dir⟩)) =
      .ok ((), ⟨(env.answer e (.opendir full)).2, w.table,
        w.objects ++ [⟨.directory ⟨full, some dir⟩, false⟩]⟩) := perform_store_last env _ rfl rfl
  unfold sftpDoOpendir
  rw [if_pos hperm, execute_withResolved hresolved, request_bind,
    execute_call_ok _ (perform_new _), request_bind, execute_call_ok _ (perform_os _), hdir]
  dsimp only
  rw [request_bind, execute_call_ok _ hstore, Execution.after_after, Execution.after_after,
    Execution.after_after]
  rfl

/-- An OPENDIR that has sent a handle has resolved its path and opened the
directory. -/
theorem opened_opendir {w : World σ}
    (h : Opened ((sftpDoOpendir ctx msg).execute (perform env) w).events) :
    canRead ctx.perm = true ∧ ∃ e full dir,
      resolvedIn env ctx w.env msg.filename true = some (e, full) ∧
        (env.answer e (.opendir full)).1 = some dir := by
  unfold sftpDoOpendir at h
  by_cases hperm : canRead ctx.perm = true
  · rw [if_pos hperm, opened_withResolved] at h
    obtain ⟨e, full, hresolved, h⟩ := h
    rw [opened_call_bind (c := .new _) trivial (perform_new _),
      opened_call_bind (c := .os (.opendir full)) trivial (perform_os _)] at h
    cases hdir : (env.answer e (.opendir full)).1 with
    | some dir => exact ⟨hperm, e, full, dir, hresolved, hdir⟩
    | none =>
        have hrest : Makes (fun _ _ => True) Call.sendsNoHandle (do
            call (.delete .directory w.objects.length)
            refuse ctx "OPENDIR" msg.filename "FAILURE" .failure) :=
          makes_bind (makes_call trivial) fun _ =>
            makes_refuse sendsNoHandle_housekeeping _ _ _ _
        rw [hdir] at h
        exact (not_opened_of_makes hrest _ h).elim
  · rw [if_neg hperm] at h
    exact (not_opened_refuse _ _ _ _ _ _ h).elim

/-- The stream behind the handle is one of the directory that the path
resolves to. -/
theorem listing_of_opendir (henv : Lists env left listing) {s t : Session σ}
    (htype : msg.type = .opendir) (ht : step env ctx s msg = some t)
    (hsent : (⟨.os (.reply (.handle slot)), true⟩ : Event Call.Answer) ∈
      (s.serve env ctx msg).events) :
    let path := resolvePath (env.realpath s.world.env) ctx.root msg.filename true
    t.Listing left slot path (ordinary (listing path)) := by
  obtain ⟨-, hafter⟩ := step_eq_some_iff.mp ht
  have hserve : s.serve env ctx msg = (sftpDoOpendir ctx msg).execute (perform env) s.world := by
    unfold Session.serve processSftp
    rw [htype]
  rw [hserve] at hsent hafter
  have hopened : Opened ((sftpDoOpendir ctx msg).execute (perform env) s.world).events :=
    ⟨slot, hsent⟩
  obtain ⟨hperm, e, full, dir, hresolved, hdir⟩ := opened_opendir hopened
  have hfull : full = resolvePath (env.realpath s.world.env) ctx.root msg.filename true := by
    unfold resolvedIn at hresolved
    dsimp only at hresolved
    split at hresolved
    · cases hresolved
    · exact (Prod.mk.inj (Option.some.inj hresolved)).2.symm
  rw [execute_opendir hperm hresolved hdir] at hopened hsent hafter
  have hnone : ¬ Opened
      ([⟨.os .realpath, (env.answer s.world.env .realpath).1⟩,
        ⟨.new (.directory ⟨full, none⟩), s.world.objects.length⟩,
        ⟨.os (.opendir full), some dir⟩,
        ⟨.store s.world.objects.length (.directory ⟨full, some dir⟩), ()⟩] :
          List (Event Call.Answer)) := by
    rintro ⟨slot', h⟩
    simp at h
  rw [Execution.after_events, opened_append_iff, or_iff_right hnone, opened_giveHandle] at hopened
  obtain ⟨slot', hchoose, hreply⟩ := hopened
  rw [execute_giveHandle _ _ _ _ hchoose hreply] at hsent hafter
  obtain rfl : slot = slot' := by
    simp only [Execution.after_events, List.mem_append, List.mem_cons, Sigma.mk.injEq,
      reduceCtorEq, false_and, false_or, List.not_mem_nil, or_false] at hsent
    rcases hsent with (⟨h, -⟩ | ⟨h, -⟩) | ⟨h, -⟩ <;> cases h
    rfl
  dsimp only
  rw [hafter, ← hfull]
  refine ⟨rfl, s.world.objects.length, dir, if_pos rfl, live_last s.world.objects rfl, ?_⟩
  rw [← henv.opened e full dir hdir]
  exact congrArg (fun left => ordinary (left dir)) (henv.reply_keeps _ _).symm

/-- READDIR enumerates exactly. On the handle that an OPENDIR has sent, the
messages show the entries of the directory other than `.` and `..`, in
their order, each once, and then its end for ever. On Windows they show the
same; and if `stat` tells of the entries what the search does, with the
same attributes. -/
theorem readdir_enumerates (henv : Lists env left listing) (hdelivers : env.Delivers)
    (hallocates : env.Allocates) {s t : Session σ} (htype : msg.type = .opendir)
    (ht : step env ctx s msg = some t)
    (hsent : (⟨.os (.reply (.handle slot)), true⟩ : Event Call.Answer) ∈
      (s.serve env ctx msg).events)
    {path : Text}
    (hpath : resolvePath (env.realpath s.world.env) ctx.root msg.filename true = path)
    {found : List FindData} (hfound : found.map FindData.cFileName = listing path) (w : World σ)
    (n : ℕ) :
    let posix := outputs (readdir env ctx slot) n t
    let windows := outputs (readdirWin env found) n (w, {})
    let shown := (List.range n).map fun i => entryReply (ordinary (listing path))[i]?
    posix.map (List.map Reply.bare) = shown ∧ windows.map (List.map Reply.bare) = shown ∧
      (Agrees env path (ordinaryFound found) → windows = posix) := by
  have hlisting := listing_of_opendir henv htype ht hsent
  dsimp only at hlisting
  rw [hpath] at hlisting
  have hmap : (ordinaryFound found).map FindData.cFileName = ordinary (listing path) := by
    rw [map_ordinaryFound, hfound]
  have hholds : WinDirData.Holds found {} (ordinaryFound found) := rfl
  have hwindows := (gives_readdirWin hdelivers hallocates found).outputs_eq n (s := (w, {})) hholds
  rw [List.map_id] at hwindows
  refine ⟨(gives_readdir_bare henv hdelivers path).outputs_eq n hlisting, ?_, ?_⟩
  · rw [hwindows, List.map_map]
    apply List.map_congr_left
    intro i _
    rw [← hmap, List.getElem?_map]
    exact bare_foundReply _
  · intro hagrees
    rw [← hmap] at hlisting
    have hposix := (gives_readdir ctx henv hdelivers hallocates path).outputs_eq n
      ⟨hlisting, hagrees⟩
    rw [List.map_id] at hposix
    exact hwindows.trans hposix.symm

end Posix

/-- A directory for every path, with the same entries, and one stream. -/
def streaming (realpath : Realpath) (listing : List Text) : Environment (DirPtr → List Text) where
  answer left
    | .opendir _ => (some 0, Function.update left 0 listing)
    | .entries (some dir) => (left dir, left)
    | .setEntries (some dir) rest => ((), Function.update left dir rest)
    | c => (grantingAnswer realpath [] [] c, left)
  slots := SlotChoice.first 256 ObjectId

theorem lists_streaming (realpath : Realpath) (listing : List Text) :
    Lists (streaming realpath listing) id fun _ => listing where
  opened e _ dir hdir := by
    cases hdir
    exact Function.update_self (0 : DirPtr) listing e
  entries _ _ := rfl
  setEntries e dir rest := by
    change Function.update e dir rest dir = rest
    exact Function.update_self dir rest e
  entries_keeps _ _ := rfl
  stat_keeps _ _ := rfl
  calloc_keeps _ := rfl
  reply_keeps _ _ := rfl

def bobListing : List Text := [txt "b", ['.'], ['.', '.'], txt "a", ['.']]

def bobOpendir : SftpClientMessage := { type := .opendir, filename := "/" }

theorem handle_sent_bob :
    (⟨.os (.reply (.handle 0)), true⟩ : Event Call.Answer) ∈
      ((Session.start fun _ => []).serve (streaming srvRealpath bobListing) bobContext
        bobOpendir).events := by
  have hresolved : resolvedIn (streaming srvRealpath bobListing) bobContext (fun _ => [])
      bobOpendir.filename true = some (fun _ => [], bobRoot.text) := by
    unfold resolvedIn
    have hresolve : resolvePath srvRealpath bobContext.root bobOpendir.filename true =
        bobRoot.text := by decide +kernel
    dsimp only [streaming, grantingAnswer]
    rw [hresolve]
    rfl
  unfold Session.serve
  change _ ∈ ((sftpDoOpendir bobContext bobOpendir).execute _ _).events
  rw [execute_opendir (by decide) hresolved rfl, execute_giveHandle _ _ _ _ first_choose_empty rfl]
  simp [Execution.after_events]

def bobFound : List FindData := bobListing.map fun entry => ⟨entry, false, 0, 0, 0⟩

theorem readdir_enumerates_bob :
    ∃ t, step (streaming srvRealpath bobListing) bobContext (Session.start fun _ => []) bobOpendir =
        some t ∧
      let posix := outputs (readdir (streaming srvRealpath bobListing) bobContext 0) 4 t
      let windows := outputs (readdirWin (streaming srvRealpath bobListing) bobFound) 4
        (⟨fun _ => [], fun _ => none, []⟩, {})
      let shown : List (List Reply) := [[.name (txt "b") none], [.name (txt "a") none],
        [.status .eof none], [.status .eof none]]
      posix.map (List.map Reply.bare) = shown ∧ windows.map (List.map Reply.bare) = shown ∧
        (Agrees (streaming srvRealpath bobListing) bobRoot.text (ordinaryFound bobFound) →
          windows = posix) :=
  have ht := step_eq_some_iff.mpr ⟨rfl, rfl⟩
  ⟨_, ht, readdir_enumerates (lists_streaming _ _) (fun _ _ => rfl) (fun _ => rfl) rfl ht
    handle_sent_bob (by decide +kernel) rfl _ 4⟩

end MockServices.Sftp
