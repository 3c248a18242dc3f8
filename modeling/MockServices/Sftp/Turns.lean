import MockServices.Sftp.HandlerRules

/-!
# What one message does to the handles

Serving a message either leaves the handle table and the objects as they
are, or it ends in a fault at the object that the message names, or it
makes an object and gives its handle out, or fails to, or it releases an
object. What the operating system answers decides which of these happens
and nothing else about them.
-/

namespace MockServices.Sftp

open Foundations Foundations.Program

variable {σ : Type}

/-- What became of a handle that was to be given out. -/
inductive Offer where
  | lacked
  | sent (slot : Slot)
  | unsent (slot : Slot)
  deriving DecidableEq

def offerOf : Event Call.Answer → Option Offer
  | ⟨.handleAlloc _, slot⟩ => if slot = none then some .lacked else none
  | ⟨.os (.reply (.handle slot)), sent⟩ => some (if sent then .sent slot else .unsent slot)
  | _ => none

def offers (events : List (Event Call.Answer)) : List Offer := events.filterMap offerOf

/-- A CLOSE that was answered OK. -/
def Exchange.closedOk (x : Exchange) : Bool :=
  x.msg.type = .close ∧ .status .ok none ∈ replies x.events

/-- The object behind the handle that the message names. -/
def World.named (w : World σ) (msg : SftpClientMessage) : Option ObjectId := msg.handle.bind w.table

/-- The kind as which the message uses the object it names. -/
def SftpContext.uses (ctx : SftpContext) (msg : SftpClientMessage) : Option HandleKind :=
  match msg.type with
  | .read | .fstat => some .file
  | .write => if canWrite ctx.perm then some .file else none
  | .readdir => some .directory
  | _ => none

def MessageType.givesHandle : MessageType → Bool
  | .open | .opendir => true
  | _ => false

/-- Only the environment of the world has changed. -/
structure Idle (w : World σ) (x : Execution Call.Answer (World σ) Fault Unit) : Prop where
  ok : x.error? = none
  world : ∃ e, x.world = { w with env := e }
  offers : offers x.events = []

theorem Idle.table {w : World σ} {x : Execution Call.Answer (World σ) Fault Unit} (h : Idle w x) :
    x.world.table = w.table := by
  obtain ⟨e, he⟩ := h.world
  rw [he]

theorem Idle.objects {w : World σ} {x : Execution Call.Answer (World σ) Fault Unit}
    (h : Idle w x) : x.world.objects = w.objects := by
  obtain ⟨e, he⟩ := h.world
  rw [he]

/-- The message does not reach an object, or reaches a live one of the
kind it is used as, and does not close. -/
structure Fits (ctx : SftpContext) (w : World σ) (msg : SftpClientMessage) : Prop where
  use : ∀ kind ∈ ctx.uses msg, ∀ info ∈ w.named msg, (w.live info).map HandleData.kind = some kind
  close : msg.type = .close → w.named msg = none

/-- Why the use of the named object is a fault. -/
def Misused (ctx : SftpContext) (w : World σ) (msg : SftpClientMessage) (info : ObjectId)
    (fault : Fault) : Prop :=
  msg.type = .close ∧ w.live info = none ∧ fault = ⟨true, false⟩ ∨
    ∃ kind ∈ ctx.uses msg, (w.live info).map HandleData.kind ≠ some kind ∧
      fault = w.misuse kind info

inductive Turn (env : Environment σ) (ctx : SftpContext) (w : World σ) (msg : SftpClientMessage)
    (x : Execution Call.Answer (World σ) Fault Unit) : Prop where
  | idle (fits : Fits ctx w msg) (idle : Idle w x)
      (unclosed : Exchange.closedOk ⟨msg, x.events⟩ = false)
  | fault (info : ObjectId) (fault : Fault) (named : w.named msg = some info)
      (misused : Misused ctx w msg info fault) (error : x.error? = some fault)
      (table : x.world.table = w.table) (objects : x.world.objects = w.objects)
      (events : offers x.events = []) (unclosed : Exchange.closedOk ⟨msg, x.events⟩ = false)
  | discarded (data : HandleData) (gives : msg.type.givesHandle = true) (ok : x.error? = none)
      (table : x.world.table = w.table) (objects : x.world.objects = w.objects ++ [⟨data, true⟩])
      (events : offers x.events = [] ∨
        offers x.events = [.lacked] ∧ env.slots.choose w.table = none)
  | given (data : HandleData) (slot : Slot) (gives : msg.type.givesHandle = true)
      (ok : x.error? = none) (chosen : env.slots.choose w.table = some slot)
      (table : x.world.table = w.table.put slot w.objects.length)
      (objects : x.world.objects = w.objects ++ [⟨data, false⟩])
      (events : offers x.events = [.sent slot])
  | orphaned (data : HandleData) (slot : Slot) (gives : msg.type.givesHandle = true)
      (ok : x.error? = none) (chosen : env.slots.choose w.table = some slot)
      (table : x.world.table = w.table.put slot w.objects.length)
      (objects : x.world.objects = w.objects ++ [⟨data, true⟩])
      (events : offers x.events = [.unsent slot])
  | closed (info : ObjectId) (data : HandleData) (type : msg.type = .close)
      (named : w.named msg = some info) (live : w.live info = some data) (ok : x.error? = none)
      (table : x.world.table = w.table)
      (objects : x.world.objects = w.objects.set info ⟨data, true⟩)
      (events : offers x.events = []) (closed : Exchange.closedOk ⟨msg, x.events⟩ = true)

/-! ## Calls that leave the handles alone -/

/-- The calls that change nothing but the environment. -/
def Quiet : Call → Prop
  | .os (.reply (.handle _)) => False
  | .os _ | .logActivity _ _ _ _ | .handle _ | .handleRemove .string => True
  | _ => False

theorem quiet_housekeeping : Housekeeping Quiet := by
  constructor <;> simp [Quiet]

/-- Only quiet calls, whatever the answers. -/
abbrev MakesQuiet {α : Type} (p : Handler α) : Prop := Makes (fun _ _ => True) Quiet p

variable {env : Environment σ} {ctx : SftpContext} {msg : SftpClientMessage}

@[simp] theorem offers_nil : offers [] = [] := rfl

@[simp] theorem offers_cons (e : Event Call.Answer) (events : List (Event Call.Answer)) :
    offers (e :: events) = (offerOf e).toList ++ offers events := by
  cases h : offerOf e <;> simp [offers, h]

@[simp] theorem offers_append (xs ys : List (Event Call.Answer)) :
    offers (xs ++ ys) = offers xs ++ offers ys := List.filterMap_append

theorem Quiet.perform {c : Call} (h : Quiet c) (w : World σ) :
    ∃ answer e, perform env w c = .ok (answer, { w with env := e }) ∧
      offerOf ⟨c, answer⟩ = none := by
  cases c with
  | os c =>
      refine ⟨_, _, rfl, ?_⟩
      cases c with
      | reply r =>
          cases r with
          | handle slot => exact h.elim
          | _ => rfl
      | _ => rfl
  | logActivity => exact ⟨(), w.env, rfl, rfl⟩
  | handle handle => exact ⟨_, w.env, rfl, rfl⟩
  | handleRemove pointer =>
      cases pointer with
      | object => exact h.elim
      | string => exact ⟨(), w.env, perform_handleRemove_string, rfl⟩
  | _ => exact h.elim

/-- A quiet program hands its result to what follows it. -/
theorem MakesQuiet.execute_bind {α : Type} {p : Handler α} (hp : MakesQuiet p)
    (env : Environment σ) (w : World σ) :
    ∃ a e events, offers events = [] ∧ ∀ f : α → Handler Unit,
      (p >>= f).execute (perform env) w =
        ((f a).execute (perform env) { w with env := e }).after events := by
  induction p generalizing w with
  | done a => exact ⟨a, w.env, [], rfl, fun f => rfl⟩
  | call c next ih =>
      obtain ⟨answer, e, hc, hoffer⟩ := hp.1.perform w
      obtain ⟨a, e', events, hevents, hrest⟩ := ih answer (hp.2 answer trivial) { w with env := e }
      refine ⟨a, e', [⟨c, answer⟩] ++ events, by simp [hoffer, hevents], fun f => ?_⟩
      rw [call_bind, execute_call_ok _ hc, hrest f, Execution.after_after]

theorem MakesQuiet.idle {p : Handler Unit} (hp : MakesQuiet p) (env : Environment σ)
    (w : World σ) : Idle w (p.execute (perform env) w) := by
  obtain ⟨a, e, events, hevents, hrest⟩ := hp.execute_bind env w
  rw [← bind_done p, hrest done]
  exact ⟨rfl, ⟨e, rfl⟩, by simpa using hevents⟩

/-! ## Putting a turn together -/

theorem closedOk_of_type_ne {events : List (Event Call.Answer)} (h : msg.type ≠ .close) :
    Exchange.closedOk ⟨msg, events⟩ = false := by
  simp [Exchange.closedOk, h]

theorem MessageType.givesHandle.ne_close (h : msg.type.givesHandle = true) : msg.type ≠ .close := by
  intro hclose
  simp [hclose, MessageType.givesHandle] at h

theorem fits_of_givesHandle (w : World σ) (h : msg.type.givesHandle = true) : Fits ctx w msg where
  use := by
    intro kind hkind
    cases htype : msg.type <;> simp [htype, MessageType.givesHandle, SftpContext.uses] at h hkind
  close := fun hclose => absurd hclose (MessageType.givesHandle.ne_close h)

theorem turn_of_quiet {w : World σ} {p : Handler Unit} (hp : MakesQuiet p)
    (hfits : Fits ctx w msg) (htype : msg.type ≠ .close) :
    Turn env ctx w msg (p.execute (perform env) w) :=
  .idle hfits (hp.idle env w) (closedOk_of_type_ne htype)

theorem offers_after {events : List (Event Call.Answer)} (h : offers events = [])
    (x : Execution Call.Answer (World σ) Fault Unit) :
    offers (x.after events).events = offers x.events := by
  simp [h]

theorem Turn.of_env {w : World σ} {e : σ} {x : Execution Call.Answer (World σ) Fault Unit}
    (h : Turn env ctx { w with env := e } msg x) : Turn env ctx w msg x := by
  cases h with
  | idle fits idle unclosed =>
      obtain ⟨e', hworld⟩ := idle.world
      exact .idle ⟨fits.use, fits.close⟩ ⟨idle.ok, ⟨e', hworld⟩, idle.offers⟩ unclosed
  | fault info fault named misused error table objects events unclosed =>
      exact .fault info fault named misused error table objects events unclosed
  | discarded data gives ok table objects events =>
      exact .discarded data gives ok table objects events
  | given data slot gives ok chosen table objects events =>
      exact .given data slot gives ok chosen table objects events
  | orphaned data slot gives ok chosen table objects events =>
      exact .orphaned data slot gives ok chosen table objects events
  | closed info data type named live ok table objects events closed =>
      exact .closed info data type named live ok table objects events closed

theorem Turn.after {w : World σ} {x : Execution Call.Answer (World σ) Fault Unit}
    (h : Turn env ctx w msg x) (htype : msg.type ≠ .close)
    {events : List (Event Call.Answer)} (hevents : offers events = []) :
    Turn env ctx w msg (x.after events) := by
  have hoffers := offers_after hevents x
  have hunclosed : Exchange.closedOk ⟨msg, (x.after events).events⟩ = false :=
    closedOk_of_type_ne htype
  cases h with
  | idle fits idle unclosed =>
      exact .idle fits ⟨idle.ok, idle.world, hoffers.trans idle.offers⟩ hunclosed
  | fault info fault named misused error table objects ev unclosed =>
      exact .fault info fault named misused error table objects (hoffers.trans ev) hunclosed
  | discarded data gives ok table objects ev =>
      exact .discarded data gives ok table objects (hoffers ▸ ev)
  | given data slot gives ok chosen table objects ev =>
      exact .given data slot gives ok chosen table objects (hoffers.trans ev)
  | orphaned data slot gives ok chosen table objects ev =>
      exact .orphaned data slot gives ok chosen table objects (hoffers.trans ev)
  | closed info data type => exact absurd type htype

theorem turn_bind {α : Type} {w : World σ} {p : Handler α} {f : α → Handler Unit}
    (hp : MakesQuiet p) (htype : msg.type ≠ .close)
    (h : ∀ a e, Turn env ctx { w with env := e } msg
      ((f a).execute (perform env) { w with env := e })) :
    Turn env ctx w msg ((p >>= f).execute (perform env) w) := by
  obtain ⟨a, e, events, hevents, hrest⟩ := hp.execute_bind env w
  rw [hrest f]
  exact (h a e).of_env.after htype hevents

theorem turn_withResolved {w : World σ} {operation path missing : Text} {mustExist : Bool}
    {code : StatusCode} {next : Text → Handler Unit} (hfits : Fits ctx w msg)
    (htype : msg.type ≠ .close)
    (h : ∀ full e, Turn env ctx { w with env := e } msg
      ((next full).execute (perform env) { w with env := e })) :
    Turn env ctx w msg
      ((withResolved ctx operation path mustExist missing code next).execute (perform env) w) := by
  refine turn_bind (makes_call_bind quiet_housekeeping.realpath fun _ _ => trivial) htype ?_
  intro full e
  split
  · exact turn_of_quiet (makes_refuse quiet_housekeeping _ _ _ _) ⟨hfits.use, hfits.close⟩ htype
  · exact h full e

/-! ## Giving out and releasing -/

theorem makesQuiet_closeData (data : HandleData) : MakesQuiet (closeData data) :=
  makes_closeData (forall_closing (fun _ => trivial) (fun _ => trivial))

theorem execute_delete (env : Environment σ) {p : Handler Unit} {f : Unit → Handler Unit}
    (hp : MakesQuiet p) {w : World σ} {info : ObjectId} {data : HandleData}
    (hlive : w.live info = some data) :
    ∃ e events, offers events = [] ∧
      (do p; call (.delete data.kind info); f ()).execute (perform env) w =
        ((f ()).execute (perform env)
          (World.set { w with env := e } info ⟨data, true⟩)).after events := by
  obtain ⟨a, e, events, hevents, hrest⟩ := hp.execute_bind env w
  have hdelete : perform env { w with env := e } (.delete data.kind info) =
      .ok ((), World.set { w with env := e } info ⟨data, true⟩) :=
    perform_delete_eq_ok_iff.mpr ⟨data, hlive, rfl, rfl⟩
  refine ⟨e, events ++ [⟨.delete data.kind info, ()⟩], by simp [hevents, offerOf], ?_⟩
  rw [hrest, request_bind, execute_call_ok _ hdelete, Execution.after_after]

theorem makesQuiet_replyStatus (code : StatusCode) (message : Option Text) :
    MakesQuiet (replyStatus code message) :=
  makes_replyStatus quiet_housekeeping code message

theorem live_last {w : World σ} (objects : List Cell) {data : HandleData}
    (h : w.objects = objects ++ [⟨data, false⟩]) : w.live objects.length = some data := by
  rw [live_eq_some_iff, h]
  simp

theorem perform_delete_last (env : Environment σ) {w : World σ} {objects : List Cell}
    {data : HandleData} (h : w.objects = objects ++ [⟨data, false⟩]) :
    perform env w (.delete data.kind objects.length) =
      .ok ((), w.set objects.length ⟨data, true⟩) :=
  perform_delete_eq_ok_iff.mpr ⟨data, live_last objects h, rfl, rfl⟩

theorem perform_store_last (env : Environment σ) {w : World σ} {objects : List Cell}
    {data : HandleData} (data' : HandleData) (h : w.objects = objects ++ [⟨data, false⟩])
    (hkind : data.kind = data'.kind) :
    perform env w (.store objects.length data') =
      .ok ((), { w with objects := objects ++ [⟨data', false⟩] }) := by
  refine perform_store_eq_ok_iff.mpr ⟨?_, ?_⟩
  · rw [live_last objects h, Option.map_some, hkind]
  · simp [World.set, h]

/-- The new object, last in the heap, is deleted again. -/
theorem execute_discard (env : Environment σ) {p : Handler Unit} {f : Unit → Handler Unit}
    (hp : MakesQuiet p) (hf : MakesQuiet (f ())) {w : World σ} {objects : List Cell}
    {data : HandleData} (hw : w.objects = objects ++ [⟨data, false⟩]) :
    let x := (do p; call (.delete data.kind objects.length); f ()).execute (perform env) w
    x.error? = none ∧ x.world.table = w.table ∧ x.world.objects = objects ++ [⟨data, true⟩] ∧
      offers x.events = [] := by
  obtain ⟨e, events, hevents, hrest⟩ := execute_delete env (f := f) hp (live_last objects hw)
  have hidle := hf.idle env (World.set { w with env := e } objects.length ⟨data, true⟩)
  rw [hrest]
  refine ⟨hidle.ok, hidle.table, hidle.objects.trans ?_, ?_⟩
  · simp [World.set, hw]
  · simpa [hevents] using hidle.offers

/-- The end of OPEN and OPENDIR, with the new object last in the heap. -/
theorem turn_giveHandle {w w' : World σ} (hgives : msg.type.givesHandle = true)
    (operation path : Text) {data : HandleData} (htable : w'.table = w.table)
    (hobjects : w'.objects = w.objects ++ [⟨data, false⟩]) :
    Turn env ctx w msg
      ((giveHandle ctx operation path w.objects.length data).execute (perform env) w') := by
  have hlog : MakesQuiet (ctx.logActivity operation path "OK") :=
    makes_call (quiet_housekeeping.log _ _ _ _)
  unfold giveHandle
  cases hchoose : env.slots.choose w.table with
  | none =>
      have halloc : perform env w' (.handleAlloc w.objects.length) = .ok (none, w') := by
        rw [perform_handleAlloc, htable, hchoose]
      rw [request_bind, execute_call_ok _ halloc]
      obtain ⟨hok, htable', hobjects', hoffers⟩ :=
        execute_discard env (f := fun _ => replyStatus .failure)
          (makesQuiet_closeData data) (makesQuiet_replyStatus _ _) hobjects
      refine .discarded data hgives hok (htable'.trans htable) hobjects' (Or.inr ⟨?_, hchoose⟩)
      rw [Execution.after_events, offers_append, hoffers]
      simp [offerOf]
  | some slot =>
      have halloc : perform env w' (.handleAlloc w.objects.length) =
          .ok (some slot, { w' with table := w.table.put slot w.objects.length }) := by
        rw [perform_handleAlloc, htable, hchoose]
      rw [request_bind, execute_call_ok _ halloc]
      simp only [reply, request_bind, execute_call_ok _ (perform_os _), Execution.after_after]
      cases hsent : (env.answer w'.env (.reply (.handle slot))).1 with
      | true =>
          have hidle := hlog.idle env ⟨(env.answer w'.env (.reply (.handle slot))).2,
            w.table.put slot w.objects.length, w'.objects⟩
          refine .given data slot hgives hidle.ok hchoose hidle.table
            (hidle.objects.trans hobjects) ?_
          simp [hidle.offers, offerOf]
      | false =>
          have hclose : MakesQuiet (do closeData data; call (.handleRemove .string)) :=
            makes_bind (makesQuiet_closeData data) fun _ => makes_call trivial
          have hw : World.objects ⟨(env.answer w'.env (.reply (.handle slot))).2,
              w.table.put slot w.objects.length, w'.objects⟩ = w.objects ++ [⟨data, false⟩] :=
            hobjects
          obtain ⟨hok, htable', hobjects', hoffers⟩ :=
            execute_discard env (f := fun _ => ctx.logActivity operation path "OK") hclose hlog hw
          rw [Program.bind_assoc] at hok htable' hobjects' hoffers
          refine .orphaned data slot hgives hok hchoose htable' hobjects' ?_
          rw [Execution.after_events, offers_append]
          exact (congrArg _ hoffers).trans (by simp [offerOf])

theorem turn_sftpDoOpen (w : World σ) (htype : msg.type = .open) :
    Turn env ctx w msg ((sftpDoOpen ctx msg).execute (perform env) w) := by
  have hgives : msg.type.givesHandle = true := by rw [htype]; rfl
  have hne : msg.type ≠ .close := by simp [htype]
  have hfits : Fits ctx w msg := fits_of_givesHandle w hgives
  unfold sftpDoOpen
  split
  · exact turn_of_quiet (makes_refuse quiet_housekeeping _ _ _ _) hfits hne
  · refine turn_withResolved hfits hne fun full e => ?_
    refine turn_bind (makes_call trivial) hne fun id e' => ?_
    cases id with
    | none =>
        exact turn_of_quiet (makes_refuse quiet_housekeeping _ _ _ _) ⟨hfits.use, hfits.close⟩ hne
    | some id =>
        simp only [request_bind, execute_call_ok _ (perform_new _)]
        refine Turn.after ?_ hne (by simp [offerOf])
        exact turn_giveHandle hgives _ _ rfl rfl

theorem turn_sftpDoOpendir (w : World σ) (htype : msg.type = .opendir) :
    Turn env ctx w msg ((sftpDoOpendir ctx msg).execute (perform env) w) := by
  have hgives : msg.type.givesHandle = true := by rw [htype]; rfl
  have hne : msg.type ≠ .close := by simp [htype]
  have hfits : Fits ctx w msg := fits_of_givesHandle w hgives
  unfold sftpDoOpendir
  split
  · refine turn_withResolved hfits hne fun full e => ?_
    simp only [request_bind, execute_call_ok _ (perform_new _)]
    refine Turn.after ?_ hne (by simp [offerOf])
    simp only [execute_call_ok _ (perform_os _)]
    cases hdir : (env.answer e (.opendir full)).1 with
    | none =>
        obtain ⟨hok, htable, hobjects, hoffers⟩ :=
          execute_discard env (p := done ())
            (f := fun _ => refuse ctx "OPENDIR" msg.filename "FAILURE" .failure) trivial
            (makes_refuse quiet_housekeeping _ _ _ _)
            (w := ⟨(env.answer e (.opendir full)).2, w.table,
              w.objects ++ [⟨.directory ⟨full, none⟩, false⟩]⟩) rfl
        refine .discarded _ hgives hok htable hobjects (Or.inl ?_)
        rw [Execution.after_events, offers_append]
        exact (congrArg _ hoffers).trans (by simp [offerOf])
    | some dir =>
        have hstore : perform env ⟨(env.answer e (.opendir full)).2, w.table,
            w.objects ++ [⟨.directory ⟨full, none⟩, false⟩]⟩
              (.store w.objects.length (.directory ⟨full, some dir⟩)) =
            .ok ((), ⟨(env.answer e (.opendir full)).2, w.table,
              w.objects ++ [⟨.directory ⟨full, some dir⟩, false⟩]⟩) :=
          perform_store_last env _ rfl rfl
        simp only [execute_call_ok _ hstore]
        refine Turn.after (Turn.after ?_ hne (by simp [offerOf])) hne (by simp [offerOf])
        exact turn_giveHandle hgives _ _ rfl rfl
  · exact turn_of_quiet (makes_refuse quiet_housekeeping _ _ _ _) hfits hne

/-! ## Using and closing -/

theorem execute_withHandle_none {w : World σ} (h : w.named msg = none)
    (next : ObjectId → Handler Unit) :
    (withHandle msg next).execute (perform env) w =
      ((replyStatus .invalidHandle).execute (perform env) w).after
        [⟨.handle msg.handle, none⟩] := by
  have hperform : perform env w (.handle msg.handle) = .ok (none, w) := by
    rw [perform_handle]
    exact congrArg (fun info => Except.ok (info, w)) h
  rw [withHandle, request_bind, execute_call_ok _ hperform]

theorem execute_withHandle_some {w : World σ} {info : ObjectId} (h : w.named msg = some info)
    (next : ObjectId → Handler Unit) :
    (withHandle msg next).execute (perform env) w =
      ((next info).execute (perform env) w).after [⟨.handle msg.handle, some info⟩] := by
  have hperform : perform env w (.handle msg.handle) = .ok (some info, w) := by
    rw [perform_handle]
    exact congrArg (fun info => Except.ok (info, w)) h
  rw [withHandle, request_bind, execute_call_ok _ hperform]

/-- A message that uses the object it names as one of a kind and leaves the
handles alone afterwards. -/
theorem turn_use {w : World σ} {kind : HandleKind} (c : ObjectId → Call)
    (next : ∀ info, (c info).Answer → Handler Unit) (hnext : ∀ info a, MakesQuiet (next info a))
    (huses : ctx.uses msg = some kind) (hne : msg.type ≠ .close)
    (hlive : ∀ info, (w.live info).map HandleData.kind = some kind →
      ∃ answer, perform env w (c info) = .ok (answer, w) ∧ offerOf ⟨c info, answer⟩ = none)
    (hmisuse : ∀ info, (w.live info).map HandleData.kind ≠ some kind →
      perform env w (c info) = .error (w.misuse kind info)) :
    Turn env ctx w msg ((withHandle msg fun info => do next info (← call (c info))).execute
      (perform env) w) := by
  cases hnamed : w.named msg with
  | none =>
      rw [execute_withHandle_none hnamed]
      refine Turn.after (turn_of_quiet (makesQuiet_replyStatus _ _) ?_ hne) hne (by simp [offerOf])
      exact ⟨fun kind _ info h => by simp [hnamed] at h, fun h => absurd h hne⟩
  | some info =>
      rw [execute_withHandle_some hnamed]
      refine Turn.after ?_ hne (by simp [offerOf])
      by_cases hkind : (w.live info).map HandleData.kind = some kind
      · obtain ⟨answer, hperform, hoffer⟩ := hlive info hkind
        rw [request_bind, execute_call_ok _ hperform]
        refine Turn.after (turn_of_quiet (hnext info answer) ⟨?_, fun h => absurd h hne⟩ hne) hne
          (by simp [hoffer])
        intro kind' hkind' info' hinfo'
        obtain rfl := Option.some.inj (huses.symm.trans hkind')
        obtain rfl := Option.some.inj (hnamed.symm.trans hinfo')
        exact hkind
      · rw [request_bind, execute_call_error _ (hmisuse info hkind)]
        exact .fault info _ hnamed (Or.inr ⟨kind, huses, hkind, rfl⟩) rfl rfl rfl rfl
          (closedOk_of_type_ne hne)

theorem turn_withFile {w : World σ} {next : FileData → Handler Unit}
    (hnext : ∀ fd, MakesQuiet (next fd)) (huses : ctx.uses msg = some .file)
    (hne : msg.type ≠ .close) :
    Turn env ctx w msg ((withFile msg next).execute (perform env) w) := by
  refine turn_use Call.file (fun _ => next) (fun _ => hnext) huses hne ?_ ?_
  · intro info hkind
    rcases hlive : w.live info with _ | fd | dd
    · simp [hlive] at hkind
    · exact ⟨fd, perform_file_eq_ok_iff.mpr ⟨hlive, rfl⟩, rfl⟩
    · simp [hlive, HandleData.kind] at hkind
  · intro info hkind
    rcases hlive : w.live info with _ | fd | dd
    · rw [perform_file, hlive]
    · simp [hlive, HandleData.kind] at hkind
    · rw [perform_file, hlive]

theorem turn_withDir {w : World σ} {next : DirData → Handler Unit}
    (hnext : ∀ dd, MakesQuiet (next dd)) (huses : ctx.uses msg = some .directory)
    (hne : msg.type ≠ .close) :
    Turn env ctx w msg ((withDir msg next).execute (perform env) w) := by
  refine turn_use Call.dir (fun _ => next) (fun _ => hnext) huses hne ?_ ?_
  · intro info hkind
    rcases hlive : w.live info with _ | fd | dd
    · simp [hlive] at hkind
    · simp [hlive, HandleData.kind] at hkind
    · exact ⟨dd, perform_dir_eq_ok_iff.mpr ⟨hlive, rfl⟩, rfl⟩
  · intro info hkind
    rcases hlive : w.live info with _ | fd | dd
    · rw [perform_dir, hlive]
    · rw [perform_dir, hlive]
    · simp [hlive, HandleData.kind] at hkind

/-- What CLOSE does after the release. -/
def endClose (ctx : SftpContext) : Handler Unit := do
  call (.handleRemove .string)
  replyStatus .ok
  ctx.logActivity "CLOSE" "" "OK"

theorem makesQuiet_endClose (ctx : SftpContext) : MakesQuiet (endClose ctx) :=
  makes_bind (makes_call trivial) fun _ =>
    makes_bind (makesQuiet_replyStatus _ _) fun _ => makes_call trivial

theorem endClose_replies (env : Environment σ) (ctx : SftpContext) (w : World σ) :
    .status .ok none ∈ replies ((endClose ctx).execute (perform env) w).events := by
  simp [endClose, replyStatus, reply, SftpContext.logActivity, request, execute_call, replies]

theorem turn_closed {w : World σ} {info : ObjectId} {data : HandleData} (htype : msg.type = .close)
    (hnamed : w.named msg = some info) (hlive : w.live info = some data)
    {events : List (Event Call.Answer)} (hevents : offers events = []) :
    Turn env ctx w msg (((do closeData data; call (.delete data.kind info); endClose ctx).execute
      (perform env) w).after events) := by
  obtain ⟨e, events', hevents', hrest⟩ :=
    execute_delete env (f := fun _ => endClose ctx) (makesQuiet_closeData data) hlive
  have hidle := (makesQuiet_endClose ctx).idle env
    (World.set { w with env := e } info ⟨data, true⟩)
  rw [hrest, Execution.after_after]
  refine .closed info data htype hnamed hlive hidle.ok hidle.table hidle.objects ?_ ?_
  · simp [hevents, hevents', hidle.offers]
  · have hreply := endClose_replies env ctx
      (World.set { w with env := e } info ⟨data, true⟩)
    simp [Exchange.closedOk, htype, hreply]

theorem turn_sftpDoClose (w : World σ) (htype : msg.type = .close) :
    Turn env ctx w msg ((sftpDoClose ctx msg).execute (perform env) w) := by
  have huses : ctx.uses msg = none := by simp [SftpContext.uses, htype]
  unfold sftpDoClose
  cases hnamed : w.named msg with
  | none =>
      rw [execute_withHandle_none hnamed]
      have hidle := (makesQuiet_replyStatus .invalidHandle none).idle env w
      refine .idle ⟨by simp [huses], fun _ => hnamed⟩ ⟨hidle.ok, hidle.world, ?_⟩ ?_
      · simp [hidle.offers, offerOf]
      · simp [Exchange.closedOk, replyStatus, reply, execute_call, replies]
  | some info =>
      rw [execute_withHandle_some hnamed]
      rcases hlive : w.live info with _ | fd | dd
      · have hkind : perform env w (.kindOf info) = .error ⟨true, false⟩ := by
          rw [perform_kindOf, hlive]
        simp only [releaseData, request_bind, call_bind, execute_call_error _ hkind]
        refine .fault info _ hnamed (Or.inl ⟨htype, hlive, rfl⟩) rfl rfl rfl rfl ?_
        simp [Exchange.closedOk, replies]
      · have hkind : perform env w (.kindOf info) = .ok (.file, w) :=
          perform_kindOf_eq_ok_iff.mpr ⟨_, hlive, rfl, rfl⟩
        have hfile : perform env w (.file info) = .ok (fd, w) :=
          perform_file_eq_ok_iff.mpr ⟨hlive, rfl⟩
        simp only [releaseData, request_bind, call_bind, execute_call_ok _ hkind,
          execute_call_ok _ hfile, Execution.after_after, Program.bind_assoc]
        exact turn_closed htype hnamed hlive (by simp [offerOf])
      · have hkind : perform env w (.kindOf info) = .ok (.directory, w) :=
          perform_kindOf_eq_ok_iff.mpr ⟨_, hlive, rfl, rfl⟩
        have hdir : perform env w (.dir info) = .ok (dd, w) :=
          perform_dir_eq_ok_iff.mpr ⟨hlive, rfl⟩
        simp only [releaseData, request_bind, call_bind, execute_call_ok _ hkind,
          execute_call_ok _ hdir, Execution.after_after, Program.bind_assoc]
        exact turn_closed htype hnamed hlive (by simp [offerOf])

/-! ## The dispatcher -/

theorem fits_of_uses_none (w : World σ) (huses : ctx.uses msg = none) (hne : msg.type ≠ .close) :
    Fits ctx w msg :=
  ⟨by simp [huses], fun h => absurd h hne⟩

/-- The messages that use no object, give no handle out and close none. -/
theorem makesQuiet_processSftp (huses : ctx.uses msg = none) (hgives : msg.type.givesHandle = false)
    (hne : msg.type ≠ .close) : MakesQuiet (processSftp ctx msg) := by
  have hk : Housekeeping Quiet := quiet_housekeeping
  unfold processSftp
  cases htype : msg.type with
  | «open» | opendir => simp [htype, MessageType.givesHandle] at hgives
  | close => exact absurd htype hne
  | read | fstat | readdir => simp [SftpContext.uses, htype] at huses
  | write =>
      refine makes_sftpDoWrite hk fun hwrite => ?_
      simp [SftpContext.uses, htype, hwrite] at huses
  | stat | lstat => exact makes_sftpDoStat hk (fun _ _ => trivial) fun _ => trivial
  | setstat => exact makes_sftpDoSetstat hk
  | fsetstat => exact makes_sftpDoFsetstat hk
  | mkdir => exact makes_sftpDoMkdir hk fun _ _ _ => trivial
  | rmdir => exact makes_sftpDoRmdir hk fun _ _ _ => trivial
  | remove => exact makes_sftpDoRemove hk fun _ _ _ => trivial
  | rename => exact makes_sftpDoRename hk fun _ _ _ _ _ _ _ => trivial
  | realpath => exact makes_sftpDoRealpath hk fun _ _ _ => trivial
  | other => exact makesQuiet_replyStatus _ _

theorem serve_turn (env : Environment σ) (ctx : SftpContext) (s : Session σ)
    (msg : SftpClientMessage) : Turn env ctx s.world msg (s.serve env ctx msg) := by
  have hk : Housekeeping Quiet := quiet_housekeeping
  have hquiet : ctx.uses msg = none → msg.type.givesHandle = false → msg.type ≠ .close →
      Turn env ctx s.world msg (s.serve env ctx msg) := fun huses hgives hne =>
    turn_of_quiet (makesQuiet_processSftp huses hgives hne) (fits_of_uses_none _ huses hne) hne
  cases htype : msg.type with
  | «open» =>
      simp only [Session.serve, processSftp, htype]
      exact turn_sftpDoOpen s.world htype
  | close =>
      simp only [Session.serve, processSftp, htype]
      exact turn_sftpDoClose s.world htype
  | opendir =>
      simp only [Session.serve, processSftp, htype]
      exact turn_sftpDoOpendir s.world htype
  | read =>
      simp only [Session.serve, processSftp, htype]
      refine turn_withFile (fun fd => ?_) (by simp [SftpContext.uses, htype]) (by simp [htype])
      exact makes_seekFirst hk (fun _ _ _ => trivial) fun fp _ =>
        makes_readFrom hk (fun _ => trivial) fun _ _ _ => trivial
  | write =>
      by_cases hwrite : canWrite ctx.perm = true
      · simp only [Session.serve, processSftp, htype, sftpDoWrite, hwrite, if_true]
        refine turn_withFile (fun fd => ?_) (by simp [SftpContext.uses, htype, hwrite])
          (by simp [htype])
        exact makes_seekFirst hk (fun _ _ _ => trivial) fun fp _ =>
          makes_writeTo hk (fun _ => trivial) trivial
      · exact hquiet (by simp [SftpContext.uses, htype, hwrite])
          (by simp [htype, MessageType.givesHandle]) (by simp [htype])
  | fstat =>
      simp only [Session.serve, processSftp, htype]
      refine turn_withFile (fun fd => ?_) (by simp [SftpContext.uses, htype]) (by simp [htype])
      exact makes_replyFstat hk trivial fun _ => trivial
  | readdir =>
      simp only [Session.serve, processSftp, htype]
      refine turn_withDir (fun dd => ?_) (by simp [SftpContext.uses, htype]) (by simp [htype])
      exact makes_replyEntry hk trivial (fun _ => trivial) (fun _ => trivial) fun _ _ => trivial
  | _ =>
      exact hquiet (by simp [SftpContext.uses, htype]) (by simp [htype, MessageType.givesHandle])
        (by simp [htype])

end MockServices.Sftp
