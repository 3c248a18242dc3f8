import MockServices.Ftp.Frame
import MockServices.Ftp.LoginIdentity
import MockServices.Ftp.WorkingDirectory

/-!
# The directory of an account after its log-in

`pass_cmd` joins the temporary directory and the account's root, makes one
directory and ignores what `mkdir` answers; `resolve` compares the path it
rebuilds with the joined text as it is spelled. The account can use its
directory exactly when the spelling is the one `resolve` rebuilds and the
directory is there or one level is all that is missing.
-/

namespace MockServices.Ftp

open Foundations hiding segments
open Foundations.SegmentPath

/-! ## The spelling of a directory -/

/-- Read with backslashes as separators, nothing but names. -/
def Spelled (t : Text) : Prop := ∀ segment ∈ (slashed t).splitOn '/', IsName '/' '.' segment

instance (t : Text) : Decidable (Spelled t) := inferInstanceAs (Decidable (∀ _ ∈ _, _))

section Spelling

variable {t f : Text}

theorem Spelled.append_iff {u : Text} : Spelled (t ++ '/' :: u) ↔ Spelled t ∧ Spelled u := by
  unfold Spelled
  rw [slashed_append, slashed_cons_slash, List.splitOn_append_cons_self]
  exact List.forall_mem_append

def Spelled.root (h : Spelled t) : NormalRoot where
  names := (slashed t).splitOn '/'
  isName := h
  backslash_notMem _ hn hc := backslash_notMem_slashed t (mem_of_mem_splitOn hn hc)

theorem Spelled.root_text (h : Spelled t) : h.root.text = slashed ('/' :: t) := by
  change absolute '/' ((slashed t).splitOn '/') = '/' :: slashed t
  rw [absolute, List.intercalate_splitOn]

/-- Below an absolute base, what the scan rebuilds is compared with the base. -/
theorem resolve_absolute (t cwd target : Text) :
    resolve ('/' :: t) cwd target =
      match walk [] (moves '/' '.' (slashed (rawPath ('/' :: t) cwd target))) with
      | none => []
      | some parts =>
          if slashed ('/' :: t) <+: absolute '/' parts then absolute '/' parts else [] := by
  have hhead : (slashed (rawPath ('/' :: t) cwd target)).head? = some '/' := by
    unfold rawPath
    split <;> split <;> simp
  unfold resolve
  dsimp only
  rw [scanParts_eq_walk _ _ _ (by simp), List.nil_append, hhead]
  cases walk [] (moves '/' '.' (slashed (rawPath ('/' :: t) cwd target))) with
  | none => rfl
  | some parts =>
      have hjoined : '/' :: ['/'].intercalate parts = absolute '/' parts := rfl
      have htake : (absolute '/' parts).take (slashed ('/' :: t)).length = slashed ('/' :: t) ↔
          slashed ('/' :: t) <+: absolute '/' parts := by
        rw [List.prefix_iff_eq_take, eq_comm]
      simp only [if_true, hjoined, htake, absolute_ne_nil, if_false]

theorem resolve_slashed (t cwd target : Text) :
    resolve ('/' :: t) cwd target = resolve (slashed ('/' :: t)) cwd target := by
  have hagain : slashed (slashed t) = slashed t := slashed_of_notMem (backslash_notMem_slashed t)
  have hraw : slashed (rawPath ('/' :: slashed t) cwd target) =
      slashed (rawPath ('/' :: t) cwd target) := by
    unfold rawPath
    split <;> split <;> simp [hagain]
  rw [slashed_cons_slash, resolve_absolute, resolve_absolute, hraw, slashed_cons_slash,
    slashed_cons_slash, hagain]

theorem resolve_self (h : Spelled t) : resolve ('/' :: t) [] [] = slashed ('/' :: t) := by
  have hmove : relativeMove [] [] = ⟨0, []⟩ := rfl
  rw [resolve_slashed, ← h.root_text, resolve_eq, hmove]
  simp [Relative.apply, NormalPath.text]

theorem resolve_plain (h : Spelled t) (hname : IsName '/' '.' f) (hplain : '\\' ∉ f) :
    resolve ('/' :: t) [] f = slashed ('/' :: t) ++ '/' :: f := by
  have hmove : relativeMove [] f = ⟨0, [f]⟩ := relativeMove_file [] hname hplain
  have hne : h.root.names ≠ [] := List.splitOn_ne_nil '/' (slashed t)
  have happend : absolute '/' (h.root.names ++ [f]) = h.root.text ++ '/' :: f := by
    rw [absolute_append '/' hne, List.flatMap_singleton]
    rfl
  rw [resolve_slashed, ← h.root_text, resolve_eq, hmove]
  simp [Relative.apply, happend]

/-- What is rebuilt from a base that is not spelled so is shorter. -/
theorem spelled_of_resolve (ht : t ≠ []) (h : resolve ('/' :: t) [] [] ≠ []) : Spelled t := by
  have hraw : moves '/' '.' (slashed (rawPath ('/' :: t) [] [])) =
      .stay :: moves '/' '.' (slashed t) := moves_cons_sep '/' '.' (slashed t)
  rw [resolve_absolute, hraw] at h
  cases hwalk : walk [] (moves '/' '.' (slashed t)) with
  | none => simp [walk, hwalk] at h
  | some parts =>
      have hbase : slashed ('/' :: t) = absolute '/' ((slashed t).splitOn '/') := by
        rw [absolute, List.intercalate_splitOn]
        rfl
      have hpre : slashed ('/' :: t) <+: absolute '/' parts := by
        by_contra hpre
        simp only [walk, hwalk] at h
        exact h (if_neg hpre)
      have hparts : parts ≠ [] := by
        rintro rfl
        have hnil : slashed t = [] := by simpa [absolute] using hpre
        exact ht (List.map_eq_nil_iff.mp hnil)
      have hlength : (absolute '/' parts).length ≤ (slashed ('/' :: t)).length := by
        have hle := walk_length_le '/' hwalk
        rwa [List.flatMap_nil, List.length_nil, Nat.zero_add, ← absolute_eq_flatMap '/' hparts,
          ← absolute_eq_flatMap '/' (List.splitOn_ne_nil '/' (slashed t)), ← hbase] at hle
      have hname := walk_moves_isName (List.forall_mem_nil _) hwalk
      have hrebuilt : slashed t = ['/'].intercalate parts :=
        List.tail_eq_of_cons_eq (hpre.eq_of_length_le hlength)
      intro segment hsegment
      rw [hrebuilt, List.splitOn_intercalate '/' (fun n hn => (hname n hn).sep_notMem) hparts]
        at hsegment
      exact hname segment hsegment

end Spelling

/-! ## Where the paths lead -/

/-- The kernel follows a path from the root directory; below the temporary
directory nothing is a link. -/
def posixLookup : Lookup := fun _ path => some (remaining path)

/-- The calls of the server succeed below `tmp` where the file system lets them. -/
structure Writable (os : Os) (tmp : Text) (files : FileSystem Text Char) : Prop where
  mkdir : ∀ path, remaining tmp <+: remaining path →
    os.mkdir path = (files.mkdir (remaining path)).isSome
  ofstream : ∀ path, remaining tmp <+: remaining path →
    os.ofstream path = (files.openTruncated (remaining path)).isSome

/-- A file name without a backslash. -/
structure PlainName (f : Text) : Prop where
  isName : IsName '/' '.' f
  backslash_notMem : '\\' ∉ f
  nul_notMem : '\x00' ∉ f

/-- The root that is joined to the temporary directory. -/
def relativeRoot (root : Text) : Text :=
  match root with
  | '/' :: rest => rest
  | _ => root

section Places

variable {t f rel root : Text}

theorem accountRoot_eq (tmp root : Text) :
    accountRoot tmp root = if relativeRoot root = [] then (tmp, []) else
      (tmp ++ '/' :: relativeRoot root, [.mkdir (tmp ++ '/' :: relativeRoot root)]) := by
  cases root with
  | nil => rfl
  | cons c root =>
      by_cases hc : c = '/'
      · subst hc
        cases root with
        | nil => rfl
        | cons d root => simp [accountRoot, relativeRoot]
      · simp [accountRoot, relativeRoot, hc]

/-- Names and empty segments only, so the names are entered one after the other. -/
theorem settle_moves (stack : List Text) (h : ∀ n ∈ t.splitOn '/', n ≠ ['.'] ∧ n ≠ ['.', '.']) :
    settle stack (moves '/' '.' t) = stack ++ segments '/' t := by
  unfold moves segments
  generalize t.splitOn '/' = segs at h
  induction segs generalizing stack with
  | nil => simp [settle]
  | cons seg segs ih =>
      obtain ⟨hseg, hsegs⟩ := List.forall_mem_cons.mp h
      rw [List.map_cons, settle_move_cons, if_neg hseg.2]
      by_cases hempty : seg = []
      · simpa [hempty] using ih stack hsegs
      · rw [if_pos ⟨hempty, hseg.1⟩, ih _ hsegs]
        simp [hempty]

theorem remaining_append (tmp : Text) :
    remaining (tmp ++ '/' :: t) = settle (remaining tmp) (moves '/' '.' t) := by
  rw [remaining, moves_append, settle_append]
  rfl

theorem remaining_file (tmp : Text) (hname : IsName '/' '.' f) :
    remaining (tmp ++ '/' :: f) = remaining tmp ++ [f] := by
  rw [remaining_append, moves_of_notMem '.' hname.sep_notMem, move_of_isName hname]
  rfl

theorem mem_splitOn_slashed {n : Text} (hn : n ∈ t.splitOn '/') (hplain : '\\' ∉ n) :
    n ∈ (slashed t).splitOn '/' := by
  induction t using segment_induction '/' with
  | hrest t h =>
      rw [List.splitOn_eq_singleton h, List.mem_singleton] at hn
      rw [← hn, slashed_of_notMem hplain, List.splitOn_eq_singleton (hn ▸ h)]
      exact List.mem_singleton_self n
  | hcons segment rest h ih =>
      rw [List.splitOn_append_cons_self, List.mem_append, List.splitOn_eq_singleton h] at hn
      rw [slashed_append, slashed_cons_slash, List.splitOn_append_cons_self, List.mem_append]
      rcases hn with hn | hn
      · obtain rfl := List.mem_singleton.mp hn
        rw [slashed_of_notMem hplain, List.splitOn_eq_singleton h]
        exact Or.inl (List.mem_singleton_self n)
      · exact Or.inr (ih hn)

/-- The place of what is spelled with backslashes is not the one that
`resolve` arrives at. -/
theorem exists_backslash_remaining (h : Spelled t) (hmem : '\\' ∈ t) :
    ∃ n ∈ remaining ('/' :: t), '\\' ∈ n := by
  have hsegment : ∀ n ∈ t.splitOn '/', n ≠ [] ∧ n ≠ ['.'] ∧ n ≠ ['.', '.'] := by
    intro n hn
    by_cases hplain : '\\' ∈ n
    · refine ⟨?_, ?_, ?_⟩ <;> rintro rfl <;> simp at hplain
    · have hname := h n (mem_splitOn_slashed hn hplain)
      exact ⟨hname.ne_nil, hname.ne_dot, hname.ne_dotdot⟩
  have hplace : remaining ('/' :: t) = segments '/' t := by
    have hsettle := settle_moves [] fun n hn => (hsegment n hn).2
    rwa [List.nil_append] at hsettle
  have hjoin : ['/'].intercalate (t.splitOn '/') = t := List.intercalate_splitOn '/'
  rw [← hjoin] at hmem
  rcases mem_intercalate hmem with heq | ⟨n, hn, hc⟩
  · exact absurd heq (by decide)
  · refine ⟨n, ?_, hc⟩
    rw [hplace, segments, List.mem_filter]
    simp [hn, (hsegment n hn).1]

end Places

/-! ## What STOR and PASS do to the file system -/

section Calls

variable {os : Os} {lookup : Lookup} {disk : Disk} {server : Server} {client : Client}
  {path f arg : Text} {user : User}

theorem entry_fileWrites (blocks : List Text) :
    (disk.after os lookup (blocks.map .fileWrite)).files.entry = disk.files.entry := by
  induction blocks generalizing disk with
  | nil => rfl
  | cons block blocks ih =>
      change ((Effect.act os lookup disk (.fileWrite block)).after os lookup
        (blocks.map .fileWrite)).files.entry = _
      rw [ih]
      unfold Effect.act
      cases disk.writing <;> rfl

theorem entry_storTransfer :
    (disk.after os lookup (storTransfer os path).1).files.entry =
      (Effect.act os lookup disk (.ofstream path)).files.entry := by
  unfold storTransfer
  split
  · exact entry_fileWrites _
  · rfl

/-- With a data connection STOR opens the file it has resolved, and nothing
else that it does makes or removes an entry. -/
theorem entry_stor {listener dataSock : RawSocket} (hauth : client.auth = true)
    (hperm : client.permits FtpPermission.write = true) (hf : f ≠ [])
    (hresolved : resolve client.phyRoot client.cwd f ≠ []) (haccept : os.accept = some dataSock) :
    (disk.after os lookup (dispatch os server
        { client with dataSock := some listener, pasv := true }
        (txt "STOR " ++ f)).2.2).files.entry =
      (Effect.act os lookup disk
        (.ofstream (resolve client.phyRoot client.cwd f))).files.entry := by
  set opened : Client := { client with dataSock := some listener, pasv := true }
  set path := resolve client.phyRoot client.cwd f
  have hcommand : (dispatch os server opened (txt "STOR " ++ f)).2 =
      withData os opened (storTransfer os path) := by
    have hpermits : opened.permits FtpPermission.write = true := hperm
    have hverb : lineVerb (txt "STOR " ++ f) = some .stor := rfl
    have harg : lineArg (txt "STOR " ++ f) = f := rfl
    rw [dispatch_eq, hverb, harg]
    change storCmd os opened f = _
    unfold storCmd withPath requireAuth requirePerm
    rw [if_pos hauth, if_pos hpermits, if_neg (by simp [hf])]
    exact if_neg hresolved
  have hquiet : ∀ (d : Disk) (effects : List Effect), (∀ e ∈ effects, e.changes = false) →
      d.after os lookup effects = d := fun d effects h => after_of_not_changes h
  have hreply : ∀ (d : Disk) (msg : Text), d.after os lookup (ftpSend opened msg) = d :=
    fun d msg => hquiet d _ fun e he => ((onlyReplies_ftpSend opened msg).quiet he).1
  have hclosed : ∀ d : Disk, d.after os lookup (closePasv opened).2 = d :=
    fun d => hquiet d _ fun e he => (quiet_of_mem_close he).1
  have hsocket : ∀ (d : Disk) (e : Effect) (effects : List Effect), e.changes = false →
      d.after os lookup (e :: effects) = d.after os lookup effects := by
    intro d e effects he
    change (Effect.act os lookup d e).after os lookup effects = _
    rw [act_of_not_changes he]
  rw [hcommand, withData_listening os _ rfl rfl, haccept]
  simp only [after_append, hreply, List.cons_append, hsocket _ (.openSocket dataSock) _ rfl,
    hsocket _ (.closeSocket dataSock) _ rfl, hclosed]
  exact entry_storTransfer

theorem entry_ofstream_of_ne {place : List Text} (h : place ≠ remaining path) :
    (Effect.act os posixLookup disk (.ofstream path)).files.entry place =
      disk.files.entry place := by
  unfold Effect.act posixLookup
  dsimp only
  split
  · rw [Option.bind_some]
    split
    · next inode files hopen =>
        rw [FileSystem.entry_openTruncated hopen]
        exact Function.update_of_ne h ..
    · rfl
  · rfl

theorem entry_ofstream_self (hopens : os.ofstream path = true)
    (h : disk.files.Vacant (remaining path)) :
    ∃ inode, (Effect.act os posixLookup disk (.ofstream path)).files.entry (remaining path) =
      some (.file inode) := by
  obtain ⟨⟨inode, files⟩, hopen⟩ :=
    Option.isSome_iff_exists.mp (FileSystem.isSome_openTruncated h)
  refine ⟨inode, ?_⟩
  unfold Effect.act posixLookup
  simp only [hopens, if_true, Option.bind_some, hopen]
  rw [FileSystem.entry_openTruncated hopen, Function.update_self]

/-- After `mkdir` the directory is there if it was, or if it could be made. -/
theorem entry_mkdir_self (hmakes : os.mkdir path = (disk.files.mkdir (remaining path)).isSome) :
    (Effect.act os posixLookup disk (.mkdir path)).files.entry (remaining path) =
        some .directory ↔
      disk.files.entry (remaining path) = some .directory ∨
        disk.files.Vacant (remaining path) := by
  unfold Effect.act posixLookup Disk.change
  dsimp only
  rw [hmakes, Option.bind_some]
  cases hmkdir : disk.files.mkdir (remaining path) with
  | none =>
      have hvacant : ¬ disk.files.Vacant (remaining path) := fun h => by
        have hsome := FileSystem.isSome_mkdir.mpr h
        rw [hmkdir] at hsome
        cases hsome
      simp [hvacant]
  | some files =>
      have hvacant := FileSystem.isSome_mkdir.mp (Option.isSome_of_eq_some hmkdir)
      simp [FileSystem.entry_mkdir hmkdir, hvacant]

theorem finite_mkdir (hfinite : {p | disk.files.entry p ≠ none}.Finite) :
    {p | (Effect.act os posixLookup disk (.mkdir path)).files.entry p ≠ none}.Finite := by
  refine (hfinite.insert (remaining path)).subset fun p hp => ?_
  by_cases hplace : p = remaining path
  · exact Or.inl hplace
  · refine Or.inr fun hnone => hp ?_
    unfold Effect.act posixLookup Disk.change
    dsimp only
    rw [Option.bind_some]
    split
    · cases hmkdir : disk.files.mkdir (remaining path) with
      | none => exact hnone
      | some files =>
          rw [Option.getD_some, FileSystem.entry_mkdir hmkdir]
          exact (Function.update_of_ne hplace ..).trans hnone
    · exact hnone

theorem passCmd_successful (h : .reply loginSuccessful ∈ (passCmd server client arg).2.2)
    (huser : findAccount server.users client.user = some user) :
    client.auth = false ∧ passCmd server client arg =
      ({ server with connUsers := insert user.name server.connUsers },
        { client with
          auth := true, perm := user.perm, phyRoot := (accountRoot server.tmp user.root).1 },
        (accountRoot server.tmp user.root).2 ++ ftpSend client loginSuccessful) := by
  unfold passCmd at h ⊢
  rw [huser] at h ⊢
  split at h
  · exact absurd ((confirms_ftpSend _ _).mp h).2 (by decide)
  · next hauth =>
      split at h
      · exact absurd ((confirms_ftpSend _ _).mp h).2 (by decide)
      · next hnamed =>
          dsimp only at h ⊢
          split at h
          · next hpass =>
              rw [if_neg hauth, if_neg hnamed, if_pos hpass]
              exact ⟨Bool.eq_false_of_not_eq_true hauth, rfl⟩
          · exact absurd ((confirms_ftpSend _ _).mp h).2 (by decide)

end Calls

/-! ## Before the log-in -/

/-- Nobody has gone anywhere without having logged in. -/
theorem cwd_of_unauthenticated {tmp : Text} {sock : RawSocket} {inputs : List Input}
    {conn : Connection} (hrun : run step (Connection.start tmp sock) inputs = some conn) :
    conn.server.tmp = tmp ∧ (conn.client.auth = false → conn.client.cwd = []) := by
  refine run_invariant (I := fun conn : Connection =>
    conn.server.tmp = tmp ∧ (conn.client.auth = false → conn.client.cwd = []))
    (fun conn input next h hstep => ?_) ⟨rfl, fun _ => rfl⟩ hrun
  obtain rfl := Option.some.inj hstep
  cases input with
  | line text os =>
      refine ⟨(dispatch_registry os conn.server conn.client text).1.trans h.1, fun hauth => ?_⟩
      have hbefore := auth_of_dispatched (dispatched os conn.server conn.client text) hauth
      rcases dispatch_cwd os conn.server conn.client text with hcwd | ⟨arg, hmoved⟩
      · exact hcwd.trans (h.2 hbefore)
      · change (dispatch os conn.server conn.client text).2.1.cwd = []
        rw [hmoved, cwdCmd_refused (by simp [hbefore]), h.2 hbefore]
  | addUser | addAnonymousUser | clearUsers => exact h

/-! ## What the account may expect -/

/-- The directory that the session has been given, for its owner. -/
structure UsableRoot (tmp : Text) (files : FileSystem Text Char) (server : Server)
    (client : Client) : Prop where
  directory : files.entry (remaining client.phyRoot) = some .directory
  inside : remaining tmp <+: remaining client.phyRoot
  resolves : resolve client.phyRoot [] [] ≠ []
  -- PASV has given the client a listener.
  stores : client.permits FtpPermission.write = true → ∀ f, PlainName f →
    files.entry (remaining client.phyRoot ++ [f]) = none →
      ∀ os, Writable os tmp files → os.accept ≠ none → ∀ listener, ∃ inode,
        ((Disk.mk files none).after os posixLookup (dispatch os server
          { client with dataSock := some listener, pasv := true }
          (txt "STOR " ++ f)).2.2).files.entry
            (remaining client.phyRoot ++ [f]) = some (.file inode)

/-- A root of names other than `.` and `..`, with slashes anywhere. -/
structure RootNames (root : Text) : Prop where
  names : ∀ n ∈ root.splitOn '/', n ≠ txt "." ∧ n ≠ txt ".."
  nul_notMem : '\x00' ∉ root

theorem RootNames.relative {root : Text} (h : RootNames root) :
    ∀ n ∈ (relativeRoot root).splitOn '/', n ≠ ['.'] ∧ n ≠ ['.', '.'] := by
  intro n hn
  unfold relativeRoot at hn
  split at hn
  · next rest =>
      have hsplit : ('/' :: rest).splitOn '/' = [] :: rest.splitOn '/' := by
        simpa using List.splitOn_append_cons_self (a := '/') [] rest
      exact h.names n (hsplit ▸ List.mem_cons_of_mem _ hn)
  · exact h.names n hn

/-- The temporary directory and the root are spelled as `resolve` rebuilds
them, without backslashes where the account may write; and no more than
one level of the directory is missing. -/
structure RootReady (rest : Text) (files : FileSystem Text Char) (user : User) : Prop where
  tmp : Spelled rest
  root : relativeRoot user.root ≠ [] → Spelled (relativeRoot user.root)
  directory : files.entry (remaining ('/' :: rest) ++ segments '/' (relativeRoot user.root)) =
      some .directory ∨
    files.Vacant (remaining ('/' :: rest) ++ segments '/' (relativeRoot user.root))
  plain : user.perm &&& FtpPermission.write = FtpPermission.write →
    '\\' ∉ rest ∧ '\\' ∉ relativeRoot user.root

theorem infinite_plainNames : {f | PlainName f}.Infinite := by
  have hinjective : Function.Injective fun n : ℕ => List.replicate (n + 1) 'a' := fun m n h => by
    simpa using congrArg List.length h
  refine Set.infinite_of_injective_forall_mem hinjective fun n => ?_
  have hchar : ∀ c ∈ List.replicate (n + 1) 'a', c = 'a' := fun c => List.eq_of_mem_replicate
  have hnone : ∀ c, c ≠ 'a' → c ∉ List.replicate (n + 1) 'a' := fun c hc h => hc (hchar c h)
  have hdot : ∀ t : Text, '.' ∈ t → List.replicate (n + 1) 'a' ≠ t := fun t ht heq =>
    hnone '.' (by decide) (heq ▸ ht)
  exact ⟨⟨by simp, hdot _ (by simp), hdot _ (by simp), hnone _ (by decide)⟩,
    hnone _ (by decide), hnone _ (by decide)⟩

/-- Every call of the server succeeds where the file system lets it. -/
def servingOs (files : FileSystem Text Char) : Os :=
  { grantingOs with
    mkdir := fun path => (files.mkdir (remaining path)).isSome
    ofstream := fun path => (files.openTruncated (remaining path)).isSome }

theorem writable_servingOs (tmp : Text) (files : FileSystem Text Char) :
    Writable (servingOs files) tmp files := ⟨fun _ _ => rfl, fun _ _ => rfl⟩

section Usable

variable {tmp t : Text} {files : FileSystem Text Char} {server : Server} {client : Client}

theorem stores_of_plain (h : Spelled t) (hplain : '\\' ∉ t) (hroot : client.phyRoot = '/' :: t)
    (hcwd : client.cwd = []) (hauth : client.auth = true)
    (hinside : remaining tmp <+: remaining client.phyRoot)
    (hdirectory : files.entry (remaining client.phyRoot) = some .directory)
    (hperm : client.permits FtpPermission.write = true) {f : Text} (hf : PlainName f)
    (hfree : files.entry (remaining client.phyRoot ++ [f]) = none) {os : Os}
    (hos : Writable os tmp files) (haccept : os.accept ≠ none) (listener : RawSocket) :
    ∃ inode, ((Disk.mk files none).after os posixLookup (dispatch os server
      { client with dataSock := some listener, pasv := true } (txt "STOR " ++ f)).2.2).files.entry
        (remaining client.phyRoot ++ [f]) = some (.file inode) := by
  obtain ⟨dataSock, haccept⟩ := Option.ne_none_iff_exists'.mp haccept
  have hresolve : resolve client.phyRoot client.cwd f = client.phyRoot ++ '/' :: f := by
    rw [hroot, hcwd, resolve_plain h hf.isName hf.backslash_notMem, slashed_cons_slash,
      slashed_of_notMem hplain]
  have hplace : remaining (client.phyRoot ++ '/' :: f) = remaining client.phyRoot ++ [f] :=
    remaining_file client.phyRoot hf.isName
  have hvacant : files.Vacant (remaining client.phyRoot ++ [f]) :=
    ⟨by simp, hfree, by rwa [List.dropLast_concat]⟩
  have hopens : os.ofstream (client.phyRoot ++ '/' :: f) = true := by
    rw [hos.ofstream _ (hplace ▸ hinside.trans (List.prefix_append ..)), hplace]
    exact FileSystem.isSome_openTruncated hvacant
  rw [entry_stor hauth hperm hf.isName.ne_nil (by simp [hresolve]) haccept, hresolve, ← hplace]
  exact entry_ofstream_self hopens (hplace ▸ hvacant)

theorem plain_of_stores (h : Spelled t) (hroot : client.phyRoot = '/' :: t)
    (hcwd : client.cwd = []) (hauth : client.auth = true)
    (hfinite : {p | files.entry p ≠ none}.Finite)
    (husable : UsableRoot tmp files server client)
    (hperm : client.permits FtpPermission.write = true) : '\\' ∉ t := by
  intro hmem
  obtain ⟨f, hf, hfree⟩ :=
    FileSystem.exists_free hfinite infinite_plainNames (remaining client.phyRoot)
  have hf : PlainName f := hf
  obtain ⟨inode, hstored⟩ := husable.stores hperm f hf hfree (servingOs files)
    (writable_servingOs tmp files) (Option.some_ne_none 8) 0
  have hresolve : resolve client.phyRoot client.cwd f = '/' :: (slashed t ++ '/' :: f) := by
    rw [hroot, hcwd, resolve_plain h hf.isName hf.backslash_notMem]
    rfl
  -- The one place has a name with a backslash, the other has none.
  have hplace : remaining client.phyRoot ++ [f] ≠ remaining ('/' :: (slashed t ++ '/' :: f)) := by
    intro heq
    obtain ⟨n, hn, hbackslash⟩ := exists_backslash_remaining h hmem
    have hread : n ∈ remaining ('/' :: (slashed t ++ '/' :: f)) :=
      heq ▸ List.mem_append_left _ (hroot ▸ hn)
    have hsource := mem_of_mem_remaining hread hbackslash
    simp [backslash_notMem_slashed, hf.backslash_notMem] at hsource
  have haccept : (servingOs files).accept = some 8 := rfl
  rw [entry_stor hauth hperm hf.isName.ne_nil (by simp [hresolve]) haccept, hresolve,
    entry_ofstream_of_ne hplace] at hstored
  exact absurd (hfree.symm.trans hstored) (by simp)

theorem usableRoot_iff (ht : t ≠ []) (hroot : client.phyRoot = '/' :: t) (hcwd : client.cwd = [])
    (hauth : client.auth = true) (hinside : remaining tmp <+: remaining client.phyRoot)
    (hfinite : {p | files.entry p ≠ none}.Finite) :
    UsableRoot tmp files server client ↔
      files.entry (remaining client.phyRoot) = some .directory ∧ Spelled t ∧
        (client.permits FtpPermission.write = true → '\\' ∉ t) := by
  constructor
  · intro h
    have hspelled := spelled_of_resolve ht (hroot ▸ h.resolves)
    exact ⟨h.directory, hspelled, plain_of_stores hspelled hroot hcwd hauth hfinite h⟩
  · rintro ⟨hdirectory, hspelled, hplain⟩
    refine ⟨hdirectory, hinside, ?_, fun hperm f hf hfree os hos haccept listener => ?_⟩
    · rw [hroot, resolve_self hspelled]
      simp
    · exact stores_of_plain hspelled (hplain hperm) hroot hcwd hauth hinside hdirectory hperm hf
        hfree hos haccept listener

end Usable

/-- What a log-in leaves to its owner. Whatever has been done before, by this
client or by others, the account can use its directory after the log-in
exactly when the root is ready for it. -/
theorem usable_root_iff (rest : Text) (hrest : rest ≠ []) (sock : RawSocket)
    (inputs : List Input) (conn : Connection)
    (hrun : run step (Connection.start ('/' :: rest) sock) inputs = some conn) (line : Text)
    (os : Os) (hpass : lineVerb line = some .pass)
    (hlogin : .reply loginSuccessful ∈ conn.effects os line) (user : User)
    (huser : findAccount conn.server.users conn.client.user = some user)
    (hnames : RootNames user.root) (files : FileSystem Text Char)
    (hfinite : {p | files.entry p ≠ none}.Finite)
    (htmp : files.entry (remaining ('/' :: rest)) = some .directory)
    (hos : Writable os ('/' :: rest) files) :
    UsableRoot ('/' :: rest)
        ((Disk.mk files none).after os posixLookup (conn.effects os line)).files
        (conn.next (.line line os)).server (conn.next (.line line os)).client ↔
      RootReady rest files user := by
  obtain ⟨htemp, hcwd⟩ := cwd_of_unauthenticated hrun
  have hdispatch : dispatch os conn.server conn.client line =
      passCmd conn.server conn.client (lineArg line) := by
    rw [dispatch_eq, hpass]
    rfl
  rw [Connection.effects, hdispatch] at hlogin
  obtain ⟨hauth, hentered⟩ := passCmd_successful hlogin huser
  rw [htemp] at hentered
  have hafter : (Disk.mk files none).after os posixLookup (conn.effects os line) =
      (Disk.mk files none).after os posixLookup (accountRoot ('/' :: rest) user.root).2 := by
    rw [Connection.effects, hdispatch, hentered, after_append]
    exact after_of_not_changes fun e he => ((onlyReplies_ftpSend _ _).quiet he).1
  have hclient : (conn.next (.line line os)).client = { conn.client with
      auth := true, perm := user.perm, phyRoot := (accountRoot ('/' :: rest) user.root).1 } := by
    change (dispatch os conn.server conn.client line).2.1 = _
    rw [hdispatch, hentered]
  generalize (conn.next (.line line os)).server = server
  generalize (conn.next (.line line os)).client = client at hclient
  have hcwd' : client.cwd = [] := hclient ▸ hcwd hauth
  have hauth' : client.auth = true := by rw [hclient]
  have hroot : client.phyRoot = (accountRoot ('/' :: rest) user.root).1 := by rw [hclient]
  have hperm : client.permits FtpPermission.write = true ↔
      user.perm &&& FtpPermission.write = FtpPermission.write := by
    rw [hclient, Client.permits, beq_iff_eq]
  rw [hafter]
  rw [accountRoot_eq] at hroot ⊢
  by_cases hrel : relativeRoot user.root = []
  · rw [if_pos hrel] at hroot ⊢
    have hroot : client.phyRoot = '/' :: rest := hroot
    have hinside : remaining ('/' :: rest) <+: remaining client.phyRoot := by rw [hroot]
    change UsableRoot _ files server client ↔ _
    rw [usableRoot_iff hrest hroot hcwd' hauth' hinside hfinite, hroot, hperm]
    constructor
    · rintro ⟨hdirectory, hspelled, hplain⟩
      refine ⟨hspelled, fun hne => absurd hrel hne, Or.inl ?_, fun hwrite => ?_⟩
      · simpa [hrel, segments] using hdirectory
      · simpa [hrel] using hplain hwrite
    · intro h
      exact ⟨htmp, h.tmp, fun hwrite => (h.plain hwrite).1⟩
  · rw [if_neg hrel] at hroot ⊢
    have hroot : client.phyRoot = '/' :: (rest ++ '/' :: relativeRoot user.root) := hroot
    have hplace : remaining client.phyRoot =
        remaining ('/' :: rest) ++ segments '/' (relativeRoot user.root) := by
      rw [hroot, ← List.cons_append, remaining_append, settle_moves _ hnames.relative]
    have hinside : remaining ('/' :: rest) <+: remaining client.phyRoot :=
      hplace ▸ List.prefix_append ..
    have hmakes : _ = ((Disk.mk files none).files.mkdir (remaining client.phyRoot)).isSome :=
      hos.mkdir _ hinside
    have hmkdir := entry_mkdir_self hmakes
    change UsableRoot _ (Effect.act os posixLookup (Disk.mk files none)
      (.mkdir ('/' :: (rest ++ '/' :: relativeRoot user.root)))).files server client ↔ _
    rw [← hroot, usableRoot_iff (by simp) hroot hcwd' hauth' hinside (finite_mkdir hfinite), hmkdir,
      hplace, hperm, Spelled.append_iff, List.mem_append, List.mem_cons]
    constructor
    · rintro ⟨hdirectory, ⟨htmpSpelled, hrootSpelled⟩, hplain⟩
      refine ⟨htmpSpelled, fun _ => hrootSpelled, hdirectory, fun hwrite => ?_⟩
      exact ⟨fun hc => hplain hwrite (Or.inl hc), fun hc => hplain hwrite (Or.inr (Or.inr hc))⟩
    · intro h
      refine ⟨h.directory, ⟨h.tmp, h.root hrel⟩, fun hwrite => ?_⟩
      rintro (hc | heq | hc)
      · exact (h.plain hwrite).1 hc
      · exact absurd heq (by decide)
      · exact (h.plain hwrite).2 hc

/-! ## Alice's directory -/

/-- The temporary directory of a server that has just been started. -/
def freshFiles : FileSystem Text Char :=
  ((FileSystem.empty.mkdir [txt "tmp"]).bind fun files => files.mkdir [txt "tmp", txt "ms"]).getD
    FileSystem.empty

theorem finite_freshFiles : {p | freshFiles.entry p ≠ none}.Finite := by
  have hentry : freshFiles.entry = Function.update (Function.update FileSystem.empty.entry
      [txt "tmp"] (some .directory)) [txt "tmp", txt "ms"] (some .directory) := rfl
  refine (Set.toFinite {[], [txt "tmp"], [txt "tmp", txt "ms"]}).subset fun p hp => ?_
  by_contra hother
  simp only [Set.mem_insert_iff, Set.mem_singleton_iff, not_or] at hother
  apply hp
  rw [hentry, Function.update_of_ne hother.2.2, Function.update_of_ne hother.2.1]
  exact if_neg hother.1

/-- A client that is about to give alice's password. -/
def aliceNamed (root : Text) : Connection :=
  [Input.addUser "alice" "secret" root FtpPermission.all, .line "USER alice" grantingOs].foldl
    Connection.next (Connection.start "/tmp/ms" 4)

theorem usable_root_iff_alice :
    UsableRoot "/tmp/ms"
      ((Disk.mk freshFiles none).after (servingOs freshFiles) posixLookup
        ((aliceNamed "/alice").effects (servingOs freshFiles) "PASS secret")).files
      ((aliceNamed "/alice").next (.line "PASS secret" (servingOs freshFiles))).server
      ((aliceNamed "/alice").next (.line "PASS secret" (servingOs freshFiles))).client :=
  (usable_root_iff "tmp/ms" (by decide) 4
    [.addUser "alice" "secret" "/alice" FtpPermission.all, .line "USER alice" grantingOs]
    (aliceNamed "/alice") rfl "PASS secret" (servingOs freshFiles) (by decide) (by decide +kernel)
    ⟨"alice", "secret", "/alice", FtpPermission.all, false⟩ (by decide) ⟨by decide, by decide⟩
    freshFiles finite_freshFiles (by decide +kernel) (writable_servingOs _ _)).mpr
      ⟨by decide, fun _ => by decide, Or.inr (by decide +kernel), fun _ => by decide⟩

/-- A root of two levels is confirmed and not there. -/
theorem nested_root_missing :
    ¬ ∀ rest, rest ≠ [] → ∀ sock inputs conn,
      run step (Connection.start ('/' :: rest) sock) inputs = some conn →
      ∀ line os, lineVerb line = some .pass → .reply loginSuccessful ∈ conn.effects os line →
      ∀ user, findAccount conn.server.users conn.client.user = some user → RootNames user.root →
      ∀ files, {p | files.entry p ≠ none}.Finite →
        files.entry (remaining ('/' :: rest)) = some .directory → Writable os ('/' :: rest) files →
          UsableRoot ('/' :: rest)
            ((Disk.mk files none).after os posixLookup (conn.effects os line)).files
            (conn.next (.line line os)).server (conn.next (.line line os)).client := by
  intro h
  have husable := h "tmp/ms" (by decide) 4
    [.addUser "alice" "secret" "/tmp/alice" FtpPermission.all, .line "USER alice" grantingOs]
    (aliceNamed "/tmp/alice") rfl "PASS secret" (servingOs freshFiles) (by decide)
    (by decide +kernel) ⟨"alice", "secret", "/tmp/alice", FtpPermission.all, false⟩ (by decide)
    ⟨by decide, by decide⟩ freshFiles finite_freshFiles (by decide +kernel)
    (writable_servingOs _ _)
  exact absurd husable.directory (by decide +kernel)

end MockServices.Ftp
