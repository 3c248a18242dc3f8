import Mathlib.Data.Multiset.Range
import MockServices.Foundations.Ledger
import MockServices.Sftp.HandleTable

/-!
# What the objects of a session hold

A stream that a handler opens belongs to an object of the heap until the
handler that gives the object up closes it. Whatever the messages are and
whatever the system answers, the streams opened and not yet closed are
those of the objects not yet released, and an object is released once.
-/

namespace MockServices.Sftp

open Foundations Foundations.Program

variable {σ : Type} {env : Environment σ} {ctx : SftpContext} {msg : SftpClientMessage}

inductive Stream where
  | file (fp : FilePtr)
  | directory (dir : DirPtr)
  deriving DecidableEq

def HandleData.stream : HandleData → Option Stream
  | .file fd => fd.fp.map .file
  | .directory dd => dd.dir.map .directory

def openedBy : Event Call.Answer → List Stream
  | ⟨.os (.fopen _ mode), id⟩ => (id.map fun id => Stream.file ⟨id, mode⟩).toList
  | ⟨.os (.opendir _), dir⟩ => (dir.map Stream.directory).toList
  | _ => []

def closedBy : Event Call.Answer → List Stream
  | ⟨.os (.fclose fp), _⟩ => [.file fp]
  | ⟨.os (.closedir dir), _⟩ => [.directory dir]
  | _ => []

def allocatedBy : Event Call.Answer → List ObjectId
  | ⟨.new _, info⟩ => [info]
  | _ => []

def freedBy : Event Call.Answer → List ObjectId
  | ⟨.delete _ info, _⟩ => [info]
  | _ => []

def opened (events : List (Event Call.Answer)) : List Stream := events.flatMap openedBy

def closed (events : List (Event Call.Answer)) : List Stream := events.flatMap closedBy

def allocated (events : List (Event Call.Answer)) : List ObjectId := events.flatMap allocatedBy

def freed (events : List (Event Call.Answer)) : List ObjectId := events.flatMap freedBy

@[simp] theorem opened_append (xs ys : List (Event Call.Answer)) :
    opened (xs ++ ys) = opened xs ++ opened ys :=
  List.flatMap_append

@[simp] theorem closed_append (xs ys : List (Event Call.Answer)) :
    closed (xs ++ ys) = closed xs ++ closed ys :=
  List.flatMap_append

/-- What a cell holds until it is released. -/
def Cell.holds {ι : Type} (item : ObjectId → HandleData → Option ι) (info : ObjectId)
    (cell : Cell) : Option ι :=
  if cell.released then none else item info cell.data

def unreleased {ι : Type} (item : ObjectId → HandleData → Option ι) (w : World σ) : Multiset ι :=
  itemsOf (Cell.holds item) w.objects

/-- The streams that the objects have still to close. -/
def streams : Ledger Call.Answer (World σ) Stream where
  held := unreleased fun _ data => data.stream
  gained := openedBy
  lost := closedBy

/-- The objects that have still to be freed. -/
def owing : Ledger Call.Answer (World σ) ObjectId where
  held := unreleased fun info _ => some info
  gained := allocatedBy
  lost := freedBy

/-- The addresses given out. -/
def addresses : Ledger Call.Answer (World σ) ObjectId where
  held w := Multiset.range w.objects.length
  gained := allocatedBy
  lost _ := []

/-! ## The unreleased objects -/

section Unreleased

variable {ι : Type} (item : ObjectId → HandleData → Option ι) {w w' : World σ} {info : ObjectId}
  {data : HandleData}

theorem unreleased_congr (h : w'.objects = w.objects) : unreleased item w' = unreleased item w := by
  rw [unreleased, h, unreleased]

theorem unreleased_new (h : w'.objects = w.objects ++ [⟨data, false⟩]) :
    unreleased item w' =
      unreleased item w + ((item w.objects.length data).toList : List ι) := by
  simp [unreleased, h, itemsOf_concat, Cell.holds]

theorem unreleased_store (hlive : w.live info = some data) {data' : HandleData}
    (h : w'.objects = w.objects.set info ⟨data', false⟩) :
    unreleased item w + ((item info data').toList : List ι) =
      ((item info data).toList : List ι) + unreleased item w' := by
  rw [unreleased, unreleased, h]
  simpa [Cell.holds] using itemsOf_set (Cell.holds item) (live_eq_some_iff.mp hlive) ⟨data', false⟩

theorem unreleased_delete (hlive : w.live info = some data)
    (h : w'.objects = w.objects.set info ⟨data, true⟩) :
    unreleased item w = ((item info data).toList : List ι) + unreleased item w' := by
  rw [unreleased, unreleased, h]
  simpa [Cell.holds] using itemsOf_set (Cell.holds item) (live_eq_some_iff.mp hlive) ⟨data, true⟩

theorem mem_unreleased {item : ObjectId → HandleData → Option ι} {b : ι} :
    b ∈ unreleased item w ↔ ∃ info data, w.live info = some data ∧ item info data = some b := by
  simp only [unreleased, mem_itemsOf, live_eq_some_iff]
  constructor
  · rintro ⟨info, ⟨data, released⟩, hcell, hitem⟩
    cases released with
    | true => simp [Cell.holds] at hitem
    | false => exact ⟨info, data, hcell, by simpa [Cell.holds] using hitem⟩
  · rintro ⟨info, data, hcell, hitem⟩
    exact ⟨info, ⟨data, false⟩, hcell, by simpa [Cell.holds] using hitem⟩

end Unreleased

/-! ## Single calls -/

/-- The calls that open and close no stream, and make, change and release
no object. -/
def Call.sparesObjects : Call → Bool
  | .os (.fopen _ _) | .os (.opendir _) | .os (.fclose _) | .os (.closedir _) => false
  | .new _ | .store _ _ | .delete _ _ => false
  | _ => true

abbrev SparesObjects {α : Type} (p : Handler α) : Prop :=
  Makes (fun _ _ => True) (fun c => c.sparesObjects = true) p

theorem objects_of_sparesObjects {w w' : World σ} {c : Call} {answer : c.Answer}
    (hc : c.sparesObjects = true) (h : perform env w c = .ok (answer, w')) :
    w'.objects = w.objects ∧ openedBy ⟨c, answer⟩ = [] ∧ closedBy ⟨c, answer⟩ = [] ∧
      allocatedBy ⟨c, answer⟩ = [] ∧ freedBy ⟨c, answer⟩ = [] := by
  cases c with
  | os c =>
      cases h
      cases c <;> first | exact ⟨rfl, rfl, rfl, rfl, rfl⟩ | simp [Call.sparesObjects] at hc
  | logActivity | handle | handleRemove =>
      cases h
      exact ⟨rfl, rfl, rfl, rfl, rfl⟩
  | handleAlloc info =>
      rw [perform_handleAlloc] at h
      split at h <;> cases h <;> exact ⟨rfl, rfl, rfl, rfl, rfl⟩
  | kindOf info =>
      obtain ⟨-, -, -, rfl⟩ := perform_kindOf_eq_ok_iff.mp h
      exact ⟨rfl, rfl, rfl, rfl, rfl⟩
  | file info =>
      obtain ⟨-, rfl⟩ := perform_file_eq_ok_iff.mp h
      exact ⟨rfl, rfl, rfl, rfl, rfl⟩
  | dir info =>
      obtain ⟨-, rfl⟩ := perform_dir_eq_ok_iff.mp h
      exact ⟨rfl, rfl, rfl, rfl, rfl⟩
  | new | store | delete => simp [Call.sparesObjects] at hc

theorem streams_balances_call {w w' : World σ} {c : Call} {answer : c.Answer}
    (hc : c.sparesObjects = true) (h : perform env w c = .ok (answer, w')) :
    streams.Balances w [⟨c, answer⟩] w' := by
  obtain ⟨hobjects, hopened, hclosed, -, -⟩ := objects_of_sparesObjects hc h
  refine Ledger.balances_of_held_eq (unreleased_congr _ hobjects) ?_ ?_
  · simpa [Ledger.gains, streams] using hopened
  · simpa [Ledger.losses, streams] using hclosed

/-- Of the other calls, the system's leave the heap alone too. -/
theorem objects_cases {w w' : World σ} {c : Call} {answer : c.Answer}
    (h : perform env w c = .ok (answer, w')) :
    w'.objects = w.objects ∧ allocatedBy ⟨c, answer⟩ = [] ∧ freedBy ⟨c, answer⟩ = [] ∨
    (∃ data, w'.objects = w.objects ++ [⟨data, false⟩] ∧
      allocatedBy ⟨c, answer⟩ = [w.objects.length] ∧ freedBy ⟨c, answer⟩ = []) ∨
    (∃ info data data', w.live info = some data ∧ w'.objects = w.objects.set info ⟨data', false⟩ ∧
      allocatedBy ⟨c, answer⟩ = [] ∧ freedBy ⟨c, answer⟩ = []) ∨
    ∃ info data, w.live info = some data ∧ w'.objects = w.objects.set info ⟨data, true⟩ ∧
      allocatedBy ⟨c, answer⟩ = [] ∧ freedBy ⟨c, answer⟩ = [info] := by
  by_cases hc : c.sparesObjects = true
  · obtain ⟨hobjects, -, -, hallocated, hfreed⟩ := objects_of_sparesObjects hc h
    exact .inl ⟨hobjects, hallocated, hfreed⟩
  cases c with
  | os c =>
      cases h
      exact .inl ⟨rfl, rfl, rfl⟩
  | new data =>
      cases h
      exact .inr (.inl ⟨data, rfl, rfl, rfl⟩)
  | store info data' =>
      obtain ⟨hkind, rfl⟩ := perform_store_eq_ok_iff.mp h
      obtain ⟨data, hlive, -⟩ := Option.map_eq_some_iff.mp hkind
      exact .inr (.inr (.inl ⟨info, data, data', hlive, rfl, rfl, rfl⟩))
  | delete kind info =>
      obtain ⟨data, hlive, -, rfl⟩ := perform_delete_eq_ok_iff.mp h
      exact .inr (.inr (.inr ⟨info, data, hlive, rfl, rfl, rfl⟩))
  | logActivity | handle | handleRemove | handleAlloc | kindOf | file | dir =>
      simp [Call.sparesObjects] at hc

theorem owing_balances_call {w w' : World σ} {c : Call} {answer : c.Answer}
    (h : perform env w c = .ok (answer, w')) : owing.Balances w [⟨c, answer⟩] w' := by
  simp only [Ledger.Balances, Ledger.gains, Ledger.losses, owing, List.flatMap_singleton]
  rcases objects_cases h with ⟨hobjects, hallocated, hfreed⟩ |
    ⟨data, hobjects, hallocated, hfreed⟩ |
    ⟨info, data, data', hlive, hobjects, hallocated, hfreed⟩ |
    ⟨info, data, hlive, hobjects, hallocated, hfreed⟩
  · simp [hallocated, hfreed, unreleased_congr _ hobjects]
  · simp [hallocated, hfreed, unreleased_new _ hobjects]
  · have hstore := unreleased_store (fun info _ => some info) hlive hobjects
    rw [Multiset.add_comm] at hstore
    simpa [hallocated, hfreed] using hstore
  · simpa [hallocated, hfreed] using
      unreleased_delete (fun info _ => some info) hlive hobjects

theorem addresses_balances_call {w w' : World σ} {c : Call} {answer : c.Answer}
    (h : perform env w c = .ok (answer, w')) : addresses.Balances w [⟨c, answer⟩] w' := by
  simp only [Ledger.Balances, Ledger.gains, Ledger.losses, addresses, List.flatMap_singleton]
  rcases objects_cases h with ⟨hobjects, hallocated, -⟩ | ⟨data, hobjects, hallocated, -⟩ |
    ⟨info, data, data', -, hobjects, hallocated, -⟩ | ⟨info, data, -, hobjects, hallocated, -⟩
  · simp [hallocated, hobjects]
  · simp [hallocated, hobjects, Multiset.range_succ, ← Multiset.singleton_add, Multiset.add_comm]
  · simp [hallocated, hobjects]
  · simp [hallocated, hobjects]

/-! ## The handlers -/

section Handlers

variable {w w' : World σ} {α : Type}

/-- From `w`, with the events since `w₀`, the program ends where what was
opened and closed is the change of what is held. -/
abbrev SettlesAfter (env : Environment σ) (w₀ : World σ) (events : List (Event Call.Answer))
    (w : World σ) (p : Handler Unit) : Prop :=
  streams.Balances w₀ (events ++ (p.execute (perform env) w).events)
    (p.execute (perform env) w).world

abbrev Settles (env : Environment σ) (w : World σ) (p : Handler Unit) : Prop :=
  SettlesAfter env w [] w p

variable {w₀ : World σ} {events : List (Event Call.Answer)}

theorem settlesAfter_done (h : streams.Balances w₀ events w) (a : Unit) :
    SettlesAfter env w₀ events w (done a) := by
  simpa [SettlesAfter] using h

theorem settlesAfter_of_settles {p : Handler Unit} (h : streams.Balances w₀ events w)
    (hp : Settles env w p) : SettlesAfter env w₀ events w p :=
  h.trans hp

theorem settlesAfter_ok {c : Call} {answer : c.Answer} {f : c.Answer → Handler Unit}
    (hc : perform env w c = .ok (answer, w'))
    (h : SettlesAfter env w₀ (events ++ [⟨c, answer⟩]) w' (f answer)) :
    SettlesAfter env w₀ events w (call c >>= f) := by
  rw [SettlesAfter, request_bind, execute_call_ok _ hc]
  simpa [SettlesAfter] using h

theorem settlesAfter_error {c : Call} {fault : Fault} {f : c.Answer → Handler Unit}
    (hc : perform env w c = .error fault) (h : streams.Balances w₀ events w) :
    SettlesAfter env w₀ events w (call c >>= f) := by
  rw [SettlesAfter, request_bind, execute_call_error _ hc]
  simpa using h

theorem settlesAfter_os {c : OsCall} {f : c.Answer → Handler Unit}
    (h : ∀ answer e, SettlesAfter env w₀ (events ++ [⟨.os c, answer⟩]) { w with env := e }
      (f answer)) : SettlesAfter env w₀ events w (os c >>= f) :=
  settlesAfter_ok (perform_os c) (h _ _)

theorem settles_bind {p : Handler α} (hp : SparesObjects p) {f : α → Handler Unit}
    (h : ∀ a w', w'.objects = w.objects → Settles env w' (f a)) : Settles env w (p >>= f) := by
  induction p generalizing w with
  | done a => exact h a w rfl
  | call c next ih =>
      cases hc : perform env w c with
      | error fault => exact settlesAfter_error hc (Ledger.balances_nil w)
      | ok result =>
          obtain ⟨answer, w'⟩ := result
          have hobjects := (objects_of_sparesObjects hp.1 hc).1
          refine settlesAfter_ok hc ?_
          refine settlesAfter_of_settles (streams_balances_call hp.1 hc) ?_
          exact ih answer (hp.2 answer trivial) fun a w'' hw'' => h a w'' (hw''.trans hobjects)

theorem SparesObjects.settles {p : Handler Unit} (hp : SparesObjects p) (w : World σ) :
    Settles env w p := by
  rw [← bind_done p]
  exact settles_bind hp fun a w' _ => settlesAfter_done (Ledger.balances_nil w') a

theorem spares_housekeeping : Housekeeping fun c => c.sparesObjects = true := by
  constructor <;> simp [Call.sparesObjects]

theorem sparesObjects_replyStatus (code : StatusCode) (message : Option Text) :
    SparesObjects (replyStatus code message) :=
  makes_replyStatus spares_housekeeping code message

theorem sparesObjects_refuse (operation path result : Text) (code : StatusCode) :
    SparesObjects (refuse ctx operation path result code) :=
  makes_refuse spares_housekeeping operation path result code

theorem sparesObjects_logActivity (operation path result : Text) :
    SparesObjects (ctx.logActivity operation path result) :=
  makes_call (spares_housekeeping.log _ _ _ _)

theorem settles_withResolved {operation path missing : Text} {mustExist : Bool}
    {code : StatusCode} {next : Text → Handler Unit}
    (h : ∀ full w', w'.objects = w.objects → Settles env w' (next full)) :
    Settles env w (withResolved ctx operation path mustExist missing code next) := by
  have hresolve : SparesObjects (ctx.resolvePath path mustExist) :=
    makes_call_bind spares_housekeeping.realpath fun _ _ => trivial
  refine settles_bind hresolve fun full w' hw' => ?_
  split
  · exact (sparesObjects_refuse _ _ _ _).settles w'
  · exact h full w' hw'

theorem settlesAfter_closeData {data : HandleData} {f : Unit → Handler Unit}
    (h : ∀ e shut, opened shut = [] → closed shut = data.stream.toList →
      SettlesAfter env w₀ (events ++ shut) { w with env := e } (f ())) :
    SettlesAfter env w₀ events w (closeData data >>= f) := by
  have hnone : data.stream = none → SettlesAfter env w₀ events w (f ()) := by
    intro hstream
    simpa using h w.env [] rfl (by rw [hstream]; rfl)
  rcases data with ⟨_ | fp, path⟩ | ⟨path, _ | dir⟩
  · exact hnone rfl
  · exact settlesAfter_os fun _ e => h e _ rfl rfl
  · exact hnone rfl
  · exact settlesAfter_os fun _ e => h e _ rfl rfl

/-- An object is deleted when its stream has been closed. -/
theorem settlesAfter_delete {info : ObjectId} {kind : HandleKind} {data : HandleData}
    {f : Unit → Handler Unit} (hlive : w.live info = some data) (hkind : data.kind = kind)
    (hobjects : w₀.objects = w.objects) (hopened : opened events = [])
    (hclosed : closed events = data.stream.toList) (hf : SparesObjects (f ())) :
    SettlesAfter env w₀ events w (call (.delete kind info) >>= f) := by
  refine settlesAfter_ok (perform_delete_eq_ok_iff.mpr ⟨data, hlive, hkind, rfl⟩) ?_
  refine settlesAfter_of_settles ?_ (hf.settles _)
  have hheld : streams.held w = (data.stream.toList : List Stream) +
      streams.held (w.set info ⟨data, true⟩) :=
    unreleased_delete _ hlive rfl
  rw [← show streams.held w₀ = streams.held w from unreleased_congr _ hobjects] at hheld
  change streams.held w₀ + (opened _ : List Stream) = (closed _ : List Stream) + streams.held _
  rw [opened_append, closed_append, hopened, hclosed]
  simpa [opened, closed, openedBy, closedBy] using hheld

/-- The end of OPEN and OPENDIR, with an object that holds its stream. -/
theorem settles_giveHandle (operation path : Text) {info : ObjectId} {data : HandleData}
    (hlive : w.live info = some data) :
    Settles env w (giveHandle ctx operation path info data) := by
  refine settles_bind (makes_call rfl) fun slot w₁ hw₁ => ?_
  have hlive₁ := (live_congr hw₁ info).trans hlive
  cases slot with
  | none =>
      exact settlesAfter_closeData fun e shut hopened hclosed =>
        settlesAfter_delete hlive₁ rfl rfl hopened hclosed (sparesObjects_replyStatus _ _)
  | some slot =>
      refine settles_bind (makes_call rfl) fun sent w₂ hw₂ => ?_
      have hlive₂ := (live_congr hw₂ info).trans hlive₁
      cases sent with
      | true => exact (sparesObjects_logActivity _ _ _).settles w₂
      | false =>
          refine settlesAfter_closeData fun e shut hopened hclosed => ?_
          refine settlesAfter_ok perform_handleRemove_string ?_
          refine settlesAfter_delete hlive₂ rfl rfl ?_ ?_ (sparesObjects_logActivity _ _ _)
          · rw [List.nil_append, opened_append, hopened]
            rfl
          · rw [List.nil_append, closed_append, hclosed]
            exact List.append_nil _

/-- Streams are opened and held. -/
theorem balances_opened (stream : Option Stream)
    (hheld : streams.held w + (stream.toList : List Stream) = streams.held w')
    (hopened : opened events = stream.toList) (hclosed : closed events = []) :
    streams.Balances w events w' := by
  change streams.held w + (opened events : List Stream) = (closed events : List Stream) + _
  rw [hopened, hclosed]
  exact hheld.trans (Multiset.zero_add _).symm

theorem balances_new {data : HandleData} (hobjects : w'.objects = w.objects ++ [⟨data, false⟩])
    (hopened : opened events = data.stream.toList) (hclosed : closed events = []) :
    streams.Balances w events w' :=
  balances_opened _ (unreleased_new _ hobjects).symm hopened hclosed

theorem balances_store {info : ObjectId} {data data' : HandleData}
    (hlive : w.live info = some data) (hnone : data.stream = none)
    (hobjects : w'.objects = w.objects.set info ⟨data', false⟩)
    (hopened : opened events = data'.stream.toList) (hclosed : closed events = []) :
    streams.Balances w events w' := by
  have hstore := unreleased_store (fun _ data => data.stream) hlive hobjects
  rw [hnone, Option.toList_none, Multiset.coe_nil, Multiset.zero_add] at hstore
  exact balances_opened _ hstore hopened hclosed

theorem settles_sftpDoOpen (w : World σ) : Settles env w (sftpDoOpen ctx msg) := by
  unfold sftpDoOpen
  split
  · exact (sparesObjects_refuse _ _ _ _).settles w
  · refine settles_withResolved fun full w' _ => settlesAfter_os fun id e => ?_
    cases id with
    | none =>
        refine settlesAfter_of_settles ?_ ((sparesObjects_refuse _ _ _ _).settles _)
        exact balances_opened none (Multiset.add_zero _) rfl rfl
    | some id =>
        refine settlesAfter_ok (perform_new _) (settlesAfter_of_settles ?_ ?_)
        · exact balances_new rfl rfl rfl
        · exact settles_giveHandle _ _ (live_last w'.objects rfl)

/-- The object is there before its stream, which it gets or is deleted
without. -/
theorem settles_sftpDoOpendir (w : World σ) : Settles env w (sftpDoOpendir ctx msg) := by
  unfold sftpDoOpendir
  split
  · refine settles_withResolved fun full w' _ => settlesAfter_ok (perform_new _) ?_
    refine settlesAfter_of_settles (balances_new rfl rfl rfl) ?_
    refine settlesAfter_os fun dir e => ?_
    cases dir with
    | none =>
        exact settlesAfter_delete (live_last w'.objects rfl) rfl rfl rfl rfl
          (sparesObjects_refuse _ _ _ _)
    | some dir =>
        refine settlesAfter_ok (perform_store_last env _ rfl rfl) ?_
        refine settlesAfter_of_settles ?_ (settles_giveHandle _ _ (live_last w'.objects rfl))
        have hset : w'.objects ++ [(⟨.directory ⟨full, some dir⟩, false⟩ : Cell)] =
            (w'.objects ++ [(⟨.directory ⟨full, none⟩, false⟩ : Cell)]).set w'.objects.length
              ⟨.directory ⟨full, some dir⟩, false⟩ := by
          simp
        exact balances_store (live_last w'.objects rfl) rfl hset rfl rfl
  · exact (sparesObjects_refuse _ _ _ _).settles w

theorem settles_sftpDoClose (w : World σ) : Settles env w (sftpDoClose ctx msg) := by
  refine settles_bind (makes_call rfl) fun info w' _ => ?_
  cases info with
  | none => exact (sparesObjects_replyStatus _ _).settles w'
  | some info =>
      have hlast : SparesObjects (endClose ctx) :=
        makes_bind (makes_call rfl) fun _ =>
          makes_bind (sparesObjects_replyStatus _ _) fun _ => sparesObjects_logActivity _ _ _
      change Settles env w' (do releaseData info; endClose ctx)
      rcases hlive : w'.live info with _ | fd | dd
      · have hkind : perform env w' (.kindOf info) = .error ⟨true, false⟩ := by
          rw [perform_kindOf, hlive]
        simp only [releaseData, Program.bind_assoc]
        exact settlesAfter_error hkind (Ledger.balances_nil w')
      · have hkind : perform env w' (.kindOf info) = .ok (.file, w') :=
          perform_kindOf_eq_ok_iff.mpr ⟨_, hlive, rfl, rfl⟩
        have hfile : perform env w' (.file info) = .ok (fd, w') :=
          perform_file_eq_ok_iff.mpr ⟨hlive, rfl⟩
        simp only [releaseData, Program.bind_assoc]
        refine settlesAfter_ok hkind ?_
        simp only [Program.bind_assoc]
        refine settlesAfter_ok hfile ?_
        exact settlesAfter_closeData fun e shut hopened hclosed =>
          settlesAfter_delete hlive rfl rfl hopened hclosed hlast
      · have hkind : perform env w' (.kindOf info) = .ok (.directory, w') :=
          perform_kindOf_eq_ok_iff.mpr ⟨_, hlive, rfl, rfl⟩
        have hdir : perform env w' (.dir info) = .ok (dd, w') :=
          perform_dir_eq_ok_iff.mpr ⟨hlive, rfl⟩
        simp only [releaseData, Program.bind_assoc]
        refine settlesAfter_ok hkind ?_
        simp only [Program.bind_assoc]
        refine settlesAfter_ok hdir ?_
        exact settlesAfter_closeData fun e shut hopened hclosed =>
          settlesAfter_delete hlive rfl rfl hopened hclosed hlast

/-- The messages other than OPEN, OPENDIR and CLOSE. -/
theorem sparesObjects_processSftp (hgives : msg.type.givesHandle = false)
    (hne : msg.type ≠ .close) : SparesObjects (processSftp ctx msg) := by
  have hk : Housekeeping fun c => c.sparesObjects = true := spares_housekeeping
  unfold processSftp
  cases htype : msg.type with
  | «open» | opendir => simp [htype, MessageType.givesHandle] at hgives
  | close => exact absurd htype hne
  | read =>
      exact makes_withFile hk (fun _ => rfl) fun _ fd _ _ =>
        makes_seekFirst hk (fun _ _ _ => rfl)
        fun fp _ => makes_readFrom hk (fun _ => rfl) fun _ _ _ => rfl
  | write =>
      exact makes_sftpDoWrite hk fun _ => makes_withFile hk (fun _ => rfl) fun _ fd _ _ =>
        makes_seekFirst hk (fun _ _ _ => rfl) fun fp _ => makes_writeTo hk (fun _ => rfl) rfl
  | readdir =>
      exact makes_withDir hk (fun _ => rfl) fun _ dd _ =>
        makes_replyEntry hk rfl (fun _ => rfl) (fun _ => rfl) fun _ _ => rfl
  | fstat =>
      exact makes_withFile hk (fun _ => rfl) fun _ fd _ _ => makes_replyFstat hk rfl fun _ => rfl
  | stat | lstat => exact makes_sftpDoStat hk (fun _ _ => rfl) fun _ => rfl
  | setstat => exact makes_sftpDoSetstat hk
  | fsetstat => exact makes_sftpDoFsetstat hk
  | mkdir => exact makes_sftpDoMkdir hk fun _ _ _ => rfl
  | rmdir => exact makes_sftpDoRmdir hk fun _ _ _ => rfl
  | remove => exact makes_sftpDoRemove hk fun _ _ _ => rfl
  | rename => exact makes_sftpDoRename hk fun _ _ _ _ _ _ _ => rfl
  | realpath => exact makes_sftpDoRealpath hk fun _ _ _ => rfl
  | other => exact sparesObjects_replyStatus _ _

theorem settles_processSftp (w : World σ) : Settles env w (processSftp ctx msg) := by
  by_cases hclose : msg.type = .close
  · simp only [processSftp, hclose]
    exact settles_sftpDoClose w
  cases hgives : msg.type.givesHandle with
  | false => exact (sparesObjects_processSftp hgives hclose).settles w
  | true =>
      cases htype : msg.type with
      | «open» =>
          simp only [processSftp, htype]
          exact settles_sftpDoOpen w
      | opendir =>
          simp only [processSftp, htype]
          exact settles_sftpDoOpendir w
      | _ => simp [htype, MessageType.givesHandle] at hgives

end Handlers

/-! ## Sessions -/

/-- All that has been called in a session. -/
def eventsOf (served : List Exchange) : List (Event Call.Answer) :=
  served.flatMap Exchange.events

theorem eventsOf_concat (served : List Exchange) (x : Exchange) :
    eventsOf (served ++ [x]) = eventsOf served ++ x.events := by
  simp [eventsOf]

/-- The ledgers balance from the start of the session on. -/
structure Accounted (start : World σ) (s : Session σ) : Prop where
  streams : Sftp.streams.Balances start (eventsOf s.served) s.world
  owing : Sftp.owing.Balances start (eventsOf s.served) s.world
  addresses : Sftp.addresses.Balances start (eventsOf s.served) s.world

section Balance

variable {start : World σ} {s : Session σ}

theorem Accounted.opened_eq (h : Accounted start s) (hstart : start.objects = []) :
    (opened (eventsOf s.served) : Multiset Stream) =
      (closed (eventsOf s.served) : Multiset Stream) + Sftp.streams.held s.world := by
  have hzero : Sftp.streams.held start = 0 := by
    simp [Sftp.streams, unreleased, hstart, itemsOf]
  have hbalance := h.streams
  rwa [Ledger.Balances, hzero, Multiset.zero_add] at hbalance

theorem Accounted.allocated_eq (h : Accounted start s) (hstart : start.objects = []) :
    (allocated (eventsOf s.served) : Multiset ObjectId) =
      (freed (eventsOf s.served) : Multiset ObjectId) + Sftp.owing.held s.world := by
  have hzero : Sftp.owing.held start = 0 := by
    simp [Sftp.owing, unreleased, hstart, itemsOf]
  have hbalance := h.owing
  rwa [Ledger.Balances, hzero, Multiset.zero_add] at hbalance

theorem Accounted.nodup_allocated (h : Accounted start s) (hstart : start.objects = []) :
    (allocated (eventsOf s.served)).Nodup := by
  have hzero : Sftp.addresses.held start = 0 := by
    simp [Sftp.addresses, hstart]
  have hlosses : (Sftp.addresses : Ledger _ (World σ) _).losses (eventsOf s.served) = [] := by
    simp [Ledger.losses, Sftp.addresses]
  have hbalance := h.addresses
  rw [Ledger.Balances, hzero, hlosses, Multiset.zero_add, Multiset.coe_nil,
    Multiset.zero_add] at hbalance
  rw [← Multiset.coe_nodup]
  exact hbalance ▸ Multiset.nodup_range _

end Balance

theorem ensures_any {α : Type} (p : Handler α) :
    p.Ensures (fun _ _ => True) (fun _ => True) fun _ => True := by
  induction p with
  | done a => trivial
  | call c next ih => exact ⟨trivial, fun answer _ => ih answer⟩

theorem accounted_start (init : σ) : Accounted (Session.start init).world (Session.start init) :=
  ⟨Ledger.balances_nil _, Ledger.balances_nil _, Ledger.balances_nil _⟩

/-- The step lemma: a message is served, whatever becomes of it. -/
theorem Accounted.step {start : World σ} {s t : Session σ} (h : Accounted start s)
    (hstep : Sftp.step env ctx s msg = some t) : Accounted start t := by
  obtain ⟨-, rfl⟩ := step_eq_some_iff.mp hstep
  constructor
  · rw [eventsOf_concat]
    exact h.streams.trans (settles_processSftp s.world)
  · rw [eventsOf_concat]
    exact h.owing.trans
      (Ledger.balances_execute (fun _ _ _ _ _ => owing_balances_call) (ensures_any _) s.world)
  · rw [eventsOf_concat]
    exact h.addresses.trans
      (Ledger.balances_execute (fun _ _ _ _ _ => addresses_balances_call) (ensures_any _) s.world)

end MockServices.Sftp
