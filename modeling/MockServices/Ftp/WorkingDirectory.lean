import MockServices.Foundations.Delimited
import MockServices.Ftp.Dispatch
import MockServices.Ftp.LexicalPaths

/-!
# The working directory

`cwd_cmd` settles the segments of the new directory, so the working
directory is always a list of names. Going into a directory and then
naming a file comes to the same as naming both at once as long as no `..`
meets the top of the client's directory, where `cwd_cmd` ignores it and
`resolve` does not.
-/

namespace MockServices.Ftp

open Foundations Foundations.SegmentPath

/-- What `cwd_cmd` splits at its slashes. -/
def cwdPath (cwd arg : Text) : Text :=
  match arg with
  | '/' :: rest => rest
  | _ => if cwd = [] then arg else cwd ++ '/' :: arg

structure IsCwd (names : List Text) (cwd : Text) : Prop where
  isName : ∀ n ∈ names, IsName '/' '.' n
  eq_joined : cwd = ['/'].intercalate names

/-- The scan of `cwd_cmd` is the settling walk over the segments not yet closed. -/
theorem scanCwd_eq_settle (rest current : Text) (parts : List Text) (h : '/' ∉ current) :
    scanCwd (rest ++ ['/']) parts current = settle parts (moves '/' '.' (current ++ rest)) := by
  induction rest generalizing parts current with
  | nil =>
      rw [List.append_nil, moves_of_notMem '.' h, settle_move_cons]
      simp [scanCwd, settle]
  | cons c rest ih =>
      by_cases hc : c = '/'
      · subst hc
        have hih : ∀ ps, scanCwd (rest ++ ['/']) ps [] = settle ps (moves '/' '.' rest) :=
          fun ps => by simpa using ih [] ps (by simp)
        rw [moves_append, moves_of_notMem '.' h, List.singleton_append, settle_move_cons]
        simp [scanCwd, hih]
      · have hcurrent : '/' ∉ current ++ [c] := by simp [h, Ne.symm hc]
        simpa [scanCwd, hc] using ih (current ++ [c]) parts hcurrent

section Command

variable {client : Client} {arg : Text}

theorem cwdCmd_cwd (hauth : client.auth = true)
    (hperm : client.permits FtpPermission.read = true) (harg : arg ≠ []) :
    (cwdCmd client arg).1.cwd = ['/'].intercalate (remaining (cwdPath client.cwd arg)) := by
  unfold cwdCmd requireAuth requirePerm
  rw [if_pos hauth, if_pos hperm]
  by_cases hslash : arg = ['/']
  · subst hslash
    rfl
  · rw [if_neg (by simp [harg, hslash])]
    have hscan := scanCwd_eq_settle (cwdPath client.cwd arg) [] [] (by simp)
    exact congrArg ['/'].intercalate hscan

theorem cwdCmd_refused (h : ¬ (client.auth = true ∧ client.permits FtpPermission.read = true)) :
    (cwdCmd client arg).1.cwd = client.cwd := by
  unfold cwdCmd requireAuth requirePerm
  split
  · next hauth => rw [if_neg fun hperm => h ⟨hauth, hperm⟩]
  · rfl

end Command

theorem lineVerb_cwd (arg : Text) : lineVerb (txt "CWD " ++ arg) = some .cwd := by
  rfl

theorem lineArg_cwd (arg : Text) : lineArg (txt "CWD " ++ arg) = arg := by
  rfl

theorem dispatch_cwdCmd (os : Os) (server : Server) (client : Client) (arg : Text) :
    (dispatch os server client (txt "CWD " ++ arg)).2.1 = (cwdCmd client arg).1 := by
  rw [dispatch_eq, lineVerb_cwd, lineArg_cwd]
  rfl

theorem dispatch_cdup (os : Os) (server : Server) (client : Client) :
    (dispatch os server client (txt "CDUP")).2.1 = (cwdCmd client (txt "..")).1 := rfl

/-! ## The invariant -/

theorem isCwd_remaining (path : Text) :
    IsCwd (remaining path) (['/'].intercalate (remaining path)) :=
  ⟨remaining_isName, rfl⟩

theorem isCwd_cwdCmd {client : Client} {names : List Text} (h : IsCwd names client.cwd)
    (arg : Text) : ∃ names', IsCwd names' (cwdCmd client arg).1.cwd := by
  by_cases hguards : client.auth = true ∧ client.permits FtpPermission.read = true
  · by_cases harg : arg = []
    · refine ⟨[], List.forall_mem_nil _, ?_⟩
      unfold cwdCmd requireAuth requirePerm
      rw [if_pos hguards.1, if_pos hguards.2, if_pos (Or.inl harg)]
      rfl
    · rw [cwdCmd_cwd hguards.1 hguards.2 harg]
      exact ⟨_, isCwd_remaining _⟩
  · rw [cwdCmd_refused hguards]
    exact ⟨names, h⟩

/-- Every other command leaves the working directory alone. -/
theorem Dispatched.cwd {os : Os} {server server' : Server} {client client' : Client} {line : Text}
    {effects : List Effect} (h : Dispatched os server client line server' client' effects) :
    client'.cwd = client.cwd ∨ lineVerb line = some .cwd ∨ lineVerb line = some .cdup := by
  cases h with
  | transferred transfer path =>
      left
      unfold withData acceptData
      cases client.pasv <;> cases client.dataSock <;> cases os.accept <;> rfl
  | moved cwd replies hverb => exact Or.inr hverb
  | _ => exact Or.inl rfl

theorem dispatch_cwd (os : Os) (server : Server) (client : Client) (line : Text) :
    (dispatch os server client line).2.1.cwd = client.cwd ∨
      ∃ arg, (dispatch os server client line).2.1 = (cwdCmd client arg).1 := by
  by_cases hcwd : lineVerb line = some .cwd
  · right
    rw [dispatch_eq, hcwd]
    exact ⟨_, rfl⟩
  · by_cases hcdup : lineVerb line = some .cdup
    · right
      rw [dispatch_eq, hcdup]
      exact ⟨_, rfl⟩
    · left
      exact ((dispatched os server client line).cwd).resolve_right fun h => h.elim hcwd hcdup

def HasCwd (conn : Connection) : Prop := ∃ names, IsCwd names conn.client.cwd

theorem hasCwd_next {conn : Connection} (h : HasCwd conn) (input : Input) :
    HasCwd (conn.next input) := by
  cases input with
  | line text os =>
      rcases dispatch_cwd os conn.server conn.client text with hkeep | ⟨arg, hcwd⟩
      · obtain ⟨names, hnames⟩ := h
        exact ⟨names, hkeep ▸ hnames⟩
      · obtain ⟨names, hnames⟩ := h
        have hafter := isCwd_cwdCmd hnames arg
        rw [← hcwd] at hafter
        exact hafter
  | addUser | addAnonymousUser | clearUsers => exact h

/-! ## Round trips -/

section RoundTrips

variable {names : List Text} {cwd : Text}

theorem IsCwd.remaining_eq (h : IsCwd names cwd) : remaining cwd = names := by
  rw [remaining, settle_eq_descend, h.eq_joined, reduce_joined h.isName]

/-- A relative argument goes on where the working directory ends. -/
theorem remaining_cwdPath (h : IsCwd names cwd) {arg : Text} (harg : ∀ rest, arg ≠ '/' :: rest) :
    remaining (cwdPath cwd arg) = settle names (moves '/' '.' arg) := by
  have hpath : cwdPath cwd arg = if cwd = [] then arg else cwd ++ '/' :: arg := by
    unfold cwdPath
    split
    · next rest => exact absurd rfl (harg rest)
    · rfl
  rw [hpath]
  split
  · next hempty =>
      have hnames : names = [] := by
        rw [← h.remaining_eq, hempty]
        rfl
      rw [hnames]
      rfl
  · rw [remaining, moves_append, settle_append]
    exact congrArg (settle · _) h.remaining_eq

variable {client : Client}

theorem cwd_pwd (h : IsCwd names client.cwd) (hauth : client.auth = true)
    (hperm : client.permits FtpPermission.read = true) :
    (cwdCmd client ('/' :: client.cwd)).1.cwd = client.cwd := by
  rw [cwdCmd_cwd hauth hperm (List.cons_ne_nil _ _)]
  change ['/'].intercalate (remaining client.cwd) = client.cwd
  rw [h.remaining_eq, ← h.eq_joined]

theorem cdup_cwd (h : IsCwd names client.cwd) (hauth : client.auth = true)
    (hperm : client.permits FtpPermission.read = true) :
    (cwdCmd client (txt "..")).1.cwd = ['/'].intercalate names.dropLast := by
  have hrelative : ∀ rest, txt ".." ≠ '/' :: rest := by
    intro rest heq
    have hhead : '.' = '/' := Option.some.inj (congrArg List.head? heq)
    exact absurd hhead (by decide)
  rw [cwdCmd_cwd hauth hperm (by decide), remaining_cwdPath h hrelative]
  rfl

theorem cwd_name (h : IsCwd names client.cwd) (hauth : client.auth = true)
    (hperm : client.permits FtpPermission.read = true) {d : Text} (hd : IsName '/' '.' d) :
    (cwdCmd client d).1.cwd = ['/'].intercalate (names ++ [d]) := by
  have hrelative : ∀ rest, d ≠ '/' :: rest := by
    rintro rest rfl
    exact hd.sep_notMem List.mem_cons_self
  have hmoves : moves '/' '.' d = [.down d] := by
    rw [moves_of_notMem '.' hd.sep_notMem, move_of_isName hd]
  rw [cwdCmd_cwd hauth hperm hd.ne_nil, remaining_cwdPath h hrelative, hmoves]
  rfl

end RoundTrips

/-- What PWD, CWD and CDUP make of a working directory with these names. -/
structure RoundTrips (conn : Connection) (names : List Text) : Prop where
  pwd : ∀ os, (dispatch os conn.server conn.client (txt "PWD")).2.2 =
    ftpSend conn.client (txt "257 \"/" ++ conn.client.cwd ++ txt "\" is current directory\r\n")
  cwd_pwd : ∀ os, (dispatch os conn.server conn.client (txt "CWD /" ++ conn.client.cwd)).2.1.cwd =
    conn.client.cwd
  cdup : ∀ os, (dispatch os conn.server conn.client (txt "CDUP")).2.1.cwd =
    ['/'].intercalate names.dropLast
  cwd_cdup : ∀ os os' d, d ≠ [] → '/' ∉ d → d ≠ txt "." → d ≠ txt ".." →
    let after := dispatch os conn.server conn.client (txt "CWD " ++ d)
    (dispatch os' after.1 after.2.1 (txt "CDUP")).2.1.cwd = conn.client.cwd

/-- In every reachable state the working directory is a list of names, and
for a client with read permission the commands that move it are inverse to
each other where they should be. -/
theorem cwd_normalised (tmp : Text) (sock : RawSocket) (inputs : List Input) (conn : Connection)
    (hrun : run step (Connection.start tmp sock) inputs = some conn) :
    ∃ names, (∀ n ∈ names, n ≠ [] ∧ n ≠ txt "." ∧ n ≠ txt ".." ∧ '/' ∉ n) ∧
      conn.client.cwd = ['/'].intercalate names ∧
      conn.client.cwd.head? ≠ some '/' ∧ conn.client.cwd.getLast? ≠ some '/' ∧
      (conn.client.auth = true → conn.client.permits FtpPermission.read = true →
        RoundTrips conn names) := by
  have hinit : HasCwd (Connection.start tmp sock) := ⟨[], List.forall_mem_nil _, rfl⟩
  have hcwd : HasCwd conn := run_invariant (fun conn input next h hstep => by
    cases hstep
    exact hasCwd_next h input) hinit hrun
  obtain ⟨names, h⟩ := hcwd
  refine ⟨names, fun n hn => ?_, h.eq_joined, ?_, ?_, fun hauth hperm => ?_⟩
  · have hname := h.isName n hn
    exact ⟨hname.ne_nil, hname.ne_dot, hname.ne_dotdot, hname.sep_notMem⟩
  · intro hhead
    obtain ⟨rest, hrest⟩ := List.head?_eq_some_iff.mp hhead
    exact head_joined h.isName rest (h.eq_joined ▸ hrest)
  · rw [h.eq_joined]
    exact getLast_joined h.isName
  · constructor
    · intro os
      change (okIf conn.client _).2 = _
      rw [okIf, requireAuth, if_pos hauth]
    · intro os
      have hline : txt "CWD /" ++ conn.client.cwd = txt "CWD " ++ '/' :: conn.client.cwd := rfl
      rw [hline, dispatch_cwdCmd, cwd_pwd h hauth hperm]
    · intro os
      rw [dispatch_cdup, cdup_cwd h hauth hperm]
    · intro os os' d hne hslash hdot hdotdot after
      have hd : IsName '/' '.' d := ⟨hne, hdot, hdotdot, hslash⟩
      have hclient : after.2.1 = (cwdCmd conn.client d).1 := dispatch_cwdCmd ..
      have hidentity := cwdCmd_identity conn.client d
      simp only [Client.identity, Prod.mk.injEq] at hidentity
      have hinto : IsCwd (names ++ [d]) (cwdCmd conn.client d).1.cwd := by
        refine ⟨fun n hn => ?_, cwd_name h hauth hperm hd⟩
        rcases List.mem_append.mp hn with hn | hn
        · exact h.isName n hn
        · exact List.mem_singleton.mp hn ▸ hd
      have hauth' : (cwdCmd conn.client d).1.auth = true := hidentity.2.1.trans hauth
      have hperm' : (cwdCmd conn.client d).1.permits FtpPermission.read = true := by
        rw [Client.permits, hidentity.2.2.1]
        exact hperm
      rw [dispatch_cdup, hclient, cdup_cwd hinto hauth' hperm', List.dropLast_concat, h.eq_joined]

def aliceReports : Connection :=
  aliceSession.next (.line (txt "CWD reports/./old 1/..//q.1/") grantingOs)

theorem cwd_normalised_alice : aliceReports.client.cwd = txt "reports/q.1" ∧
    ∃ names, aliceReports.client.cwd = ['/'].intercalate names ∧ RoundTrips aliceReports names := by
  obtain ⟨names, -, hcwd, -, -, htrips⟩ := cwd_normalised "/tmp/ms" 4
    (aliceLogin ++ [.line (txt "CWD reports/./old 1/..//q.1/") grantingOs]) aliceReports rfl
  exact ⟨by decide, names, hcwd, htrips (by decide) (by decide)⟩

/-! ## Going there first -/

section File

variable {cwd d f : Text}

/-- What `resolve` reads where `cwd_cmd` reads one segment. -/
def readAgain : SegmentPath.Move Char → List (SegmentPath.Move Char)
  | .stay => [.stay]
  | .up => [.up]
  | .down n => moves '/' '.' (slashed n)

theorem moves_slashed (t : Text) :
    moves '/' '.' (slashed t) = (moves '/' '.' t).flatMap readAgain := by
  have hsegment : ∀ segment : Text, '/' ∉ segment →
      moves '/' '.' (slashed segment) = readAgain (move '.' segment) := by
    intro segment h
    unfold move
    split_ifs with hup hname
    · subst hup
      rfl
    · rfl
    · have hstay : segment = [] ∨ segment = ['.'] := by tauto
      rcases hstay with rfl | rfl <;> rfl
  induction t using segment_induction '/' with
  | hrest t h => rw [hsegment t h, moves_of_notMem '.' h, List.flatMap_singleton]
  | hcons segment rest h ih =>
      rw [slashed_append, slashed_cons_slash, moves_append, moves_append, List.flatMap_append, ih,
        hsegment segment h, moves_of_notMem '.' h, List.flatMap_singleton]

/-- A name of `cwd_cmd` that is one name to `resolve` too, split at its
backslashes. -/
def OneName (n : Text) : Prop := OneDown (readAgain (.down n))

instance (n : Text) : Decidable (OneName n) := inferInstanceAs (Decidable (OneDown _))

theorem oneName_plain {n : Text} (h : IsName '/' '.' n) (hplain : '\\' ∉ n) : OneName n := by
  rw [OneName, readAgain, slashed_of_notMem hplain, moves_of_notMem '.' h.sep_notMem,
    move_of_isName h]
  exact oneDown_down n

theorem reduce_file (t : Text) (hname : IsName '/' '.' f) (hplain : '\\' ∉ f) :
    reduce (moves '/' '.' (slashed (t ++ '/' :: f))) =
      (reduce (moves '/' '.' (slashed t))).step (.down f) := by
  rw [slashed_append, slashed_cons_slash, slashed_of_notMem hplain, moves_append,
    moves_of_notMem '.' hname.sep_notMem, move_of_isName hname, reduce_append]
  rfl

/-- Where a file leads that is named in the working directory. -/
theorem relativeMove_file (cwd : Text) (hname : IsName '/' '.' f) (hplain : '\\' ∉ f) :
    relativeMove cwd f = (reduce (moves '/' '.' (slashed cwd))).step (.down f) := by
  have hrelative : ∀ rest, f ≠ '/' :: rest := by
    rintro rest rfl
    exact hname.sep_notMem List.mem_cons_self
  rw [relativeMove, relativePath_of_relative cwd hrelative, reduce_file cwd hname hplain]

/-- Where a file leads that is named together with its directory. -/
theorem relativeMove_path (cwd : Text) (hd : d ≠ []) (hname : IsName '/' '.' f)
    (hplain : '\\' ∉ f) :
    relativeMove cwd (d ++ '/' :: f) =
      (reduce (moves '/' '.' (slashed (cwdPath cwd d)))).step (.down f) := by
  obtain ⟨c, d, rfl⟩ := List.exists_cons_of_ne_nil hd
  by_cases hc : c = '/'
  · subst hc
    exact reduce_file d hname hplain
  · have hrelative : ∀ rest, (c :: d) ++ '/' :: f ≠ '/' :: rest :=
      fun rest heq => hc (List.cons.inj heq).1
    have hpath : cwdPath cwd (c :: d) = if cwd = [] then c :: d else cwd ++ '/' :: c :: d := by
      unfold cwdPath
      split
      · next heq => exact absurd (List.cons.inj heq).1 hc
      · rfl
    have hjoin : cwd ++ '/' :: ((c :: d) ++ '/' :: f) = (cwd ++ '/' :: c :: d) ++ '/' :: f := by
      simp
    rw [relativeMove, relativePath_of_relative cwd hrelative, hjoin, reduce_file _ hname hplain,
      hpath]
    split
    · next hempty =>
        rw [hempty, List.nil_append, slashed_cons_slash, moves_cons_sep, reduce_stay_cons]
    · rfl

/-- What `cwd_cmd` has cancelled `resolve` would have cancelled itself. -/
theorem reduce_slashed_remaining {t : Text} (hinside : StaysInside t)
    (hpops : PopsOnly OneName [] (moves '/' '.' t)) :
    reduce (moves '/' '.' (slashed (['/'].intercalate (remaining t)))) =
      reduce (moves '/' '.' (slashed t)) := by
  have hwalk : walk [] (moves '/' '.' t) = some (remaining t) := by
    rw [walk_eq_reduce, remaining, settle_eq_descend, Relative.apply,
      neverAbove_iff_climb.mp hinside]
    rfl
  have hjoined : reduce ((moves '/' '.' (['/'].intercalate (remaining t))).flatMap readAgain) =
      reduce ((remaining t).flatMap fun n => readAgain (.down n)) := by
    by_cases hnone : remaining t = []
    · rw [hnone]
      rfl
    · rw [moves_intercalate remaining_isName hnone, List.flatMap_map]
  rw [moves_slashed, hjoined, moves_slashed]
  exact (foldl_expand readAgain rfl rfl hwalk hpops ⟨0, []⟩).symm

theorem popsOnly_plain {t : Text} (h : '\\' ∉ t) :
    PopsOnly OneName [] (moves '/' '.' t) := by
  refine (popsOnly_true [] _).imp (List.forall_mem_nil _) fun n hn _ => ?_
  obtain ⟨hsegment, hname⟩ := down_mem_moves hn
  exact oneName_plain hname fun hmem => h (mem_of_mem_splitOn hsegment hmem)

/-- A move that climbs never leads where its names lead from the directory. -/
theorem climb_eq_zero_of_resolve_eq (root : NormalRoot) {cwd target cwd' target' : Text} {k : ℕ}
    {names : List Text} (hhere : relativeMove cwd target = ⟨0, names⟩)
    (hclimb : relativeMove cwd' target' = ⟨k, names⟩)
    (h : resolve root.text cwd target = resolve root.text cwd' target') : k = 0 := by
  have hinside : StaysInside (relativePath cwd target) :=
    neverAbove_iff_climb.mpr (congrArg Relative.climb hhere)
  have hnames : remaining (relativePath cwd target) = names := by
    rw [remaining, settle_eq_descend]
    exact congrArg Relative.descend hhere
  have happly : (relativeMove cwd target).apply root.names = some (root.names ++ names) := by
    rw [hhere]
    simp [Relative.apply]
  rw [resolve_of_staysInside root hinside, hnames, resolve_eq] at h
  cases hparts : (relativeMove cwd' target').apply root.names with
  | none =>
      rw [hparts] at h
      exact absurd h (absolute_ne_nil _ _)
  | some parts =>
      rw [hparts] at h
      dsimp only at h
      split at h
      · have hsame := absolute_inj (apply_isName root happly) (apply_isName root hparts) h
        rw [hclimb, Relative.apply] at hparts
        split at hparts
        · next hle =>
            have hlength := congrArg List.length ((Option.some.inj hparts).trans hsame.symm)
            simp only [List.length_append, List.length_take] at hlength
            dsimp only at hle
            omega
        · cases hparts
      · exact absurd h (absolute_ne_nil _ _)

end File

section First

variable {client : Client} {d f : Text}

theorem backslash_notMem_cwdPath {cwd : Text} (hcwd : '\\' ∉ cwd) (hd : '\\' ∉ d) :
    '\\' ∉ cwdPath cwd d := by
  unfold cwdPath
  split
  · exact fun h => hd (List.mem_cons_of_mem _ h)
  · split
    · exact hd
    · simp [hcwd, hd]

/-- Both ways to the file, as moves from the client's directory. -/
theorem relativeMove_first (hauth : client.auth = true)
    (hperm : client.permits FtpPermission.read = true) (hd : d ≠ []) (hname : IsName '/' '.' f)
    (hplain : '\\' ∉ f) :
    relativeMove (cwdCmd client d).1.cwd f =
      (reduce (moves '/' '.' (slashed (['/'].intercalate
        (remaining (cwdPath client.cwd d)))))).step (.down f) := by
  rw [relativeMove_file _ hname hplain, cwdCmd_cwd hauth hperm hd]

/-- Changing the directory first or naming it in the path. -/
theorem cwd_then_file (root : NormalRoot) (client : Client) (d f : Text)
    (hauth : client.auth = true) (hperm : client.permits FtpPermission.read = true) (hd : d ≠ [])
    (hname : IsName '/' '.' f) (hplain : '\\' ∉ f) :
    (StaysInside (cwdPath client.cwd d) →
      PopsOnly OneName [] (moves '/' '.' (cwdPath client.cwd d)) →
        resolve root.text (cwdCmd client d).1.cwd f =
          resolve root.text client.cwd (d ++ '/' :: f)) ∧
    ('\\' ∉ client.cwd → '\\' ∉ d →
      (resolve root.text (cwdCmd client d).1.cwd f =
          resolve root.text client.cwd (d ++ '/' :: f) ↔
        StaysInside (cwdPath client.cwd d))) := by
  have hfirst := relativeMove_first hauth hperm hd hname hplain
  have hat := relativeMove_path client.cwd hd hname hplain
  have hequal : StaysInside (cwdPath client.cwd d) →
      PopsOnly OneName [] (moves '/' '.' (cwdPath client.cwd d)) →
        resolve root.text (cwdCmd client d).1.cwd f =
          resolve root.text client.cwd (d ++ '/' :: f) := by
    intro hinside hpops
    apply resolve_congr
    rw [hfirst, reduce_slashed_remaining hinside hpops, hat]
  refine ⟨hequal, fun hcwd hd' => ?_⟩
  have hpath := backslash_notMem_cwdPath hcwd hd'
  refine ⟨fun h => ?_, fun hinside => hequal hinside (popsOnly_plain hpath)⟩
  have hremaining : ∀ n ∈ remaining (cwdPath client.cwd d), '\\' ∉ n :=
    fun n hn hc => hpath (mem_of_mem_remaining hn hc)
  rw [slashed_joined hremaining, reduce_joined remaining_isName] at hfirst
  rw [slashed_of_notMem hpath] at hat
  rw [remaining, settle_eq_descend] at hfirst
  exact neverAbove_iff_climb.mpr (climb_eq_zero_of_resolve_eq root hfirst hat h)

end First

theorem cwd_then_file_alice :
    resolve aliceRoot.text (cwdCmd aliceReports.client "../old//.").1.cwd "a b.txt" =
      resolve aliceRoot.text "reports/q.1" "../old//./a b.txt" :=
  (cwd_then_file aliceRoot aliceReports.client "../old//." "a b.txt" (by decide) (by decide)
    (by decide) (by decide) (by decide)).1 (by decide) (popsOnly_plain (by decide))

/-- At the top of her directory alice stays where she is with `CWD ..`, and
`../notes` is refused. -/
theorem cwd_then_file_differs :
    ¬ ∀ tmp sock inputs conn, run step (Connection.start tmp sock) inputs = some conn →
      conn.client.auth = true → conn.client.permits FtpPermission.read = true →
      ∀ (root : NormalRoot) (d f : Text), d ≠ [] → f ≠ [] → '/' ∉ f → '\\' ∉ f → f ≠ txt "." →
        f ≠ txt ".." → resolve root.text (cwdCmd conn.client d).1.cwd f =
          resolve root.text conn.client.cwd (d ++ '/' :: f) := by
  intro h
  have hsame := h "/tmp/ms" 4 aliceLogin aliceSession rfl (by decide) (by decide) aliceRoot ".."
    "notes" (by decide) (by decide) (by decide) (by decide) (by decide) (by decide)
  exact absurd hsame (by decide)

end MockServices.Ftp
