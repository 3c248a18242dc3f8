import MockServices.Sftp.OpenStreams

/-!
# The end of a session

`handle_session_after_auth` serves messages until the loop of
`process_sftp` ends, and then frees the handle table. The objects behind
the handles are freed by CLOSE alone, so a session leaves nothing open
exactly when the client has closed every handle that it was given.
-/

namespace MockServices.Sftp

open Foundations

variable {σ : Type} {env : Environment σ} {ctx : SftpContext} {msg : SftpClientMessage}

/-- What `ssh_channel_poll_timeout` answers, and after it the channel or
`sftp_get_client_message`. -/
inductive Polled where
  | error
  | nothing (isOpen isEof : Bool)
  | available (msg : Option SftpClientMessage)

inductive Heard where
  | ended
  | nothing
  | message (msg : SftpClientMessage)

/-- One round of the loop of `process_sftp`, up to the handler. -/
def hear (running : Bool) (polled : Polled) : Heard :=
  if running then
    match polled with
    | .error => .ended
    | .nothing isOpen isEof => if !isOpen || isEof then .ended else .nothing
    | .available none => .ended
    | .available (some msg) => .message msg
  else .ended

/-- What the session meets next: the answers of `do_callback_handshake`,
`sftp_server_new` and `sftp_server_init`, or a round of the loop. -/
inductive Round where
  | prepared (handshake server init : Bool)
  | pass (running : Bool) (polled : Polled)

inductive Phase where
  | preparing
  | serving
  | returned
  deriving DecidableEq

structure Connection (σ : Type) where
  phase : Phase
  session : Session σ

def Connection.start (init : σ) : Connection σ := ⟨.preparing, Session.start init⟩

/-- The return of `handle_session_after_auth`. `sftp_server_free` frees the
handle table and none of the objects in it. -/
def Connection.finish (c : Connection σ) : Connection σ where
  phase := .returned
  session := { c.session with world := { c.session.world with table := fun _ => none } }

def handleSessionAfterAuth (env : Environment σ) (ctx : SftpContext) (c : Connection σ)
    (round : Round) : Option (Connection σ) :=
  if c.session.fault = none then
    match c.phase, round with
    | .preparing, .prepared handshake server init =>
        if handshake && server && init then some { c with phase := .serving } else some c.finish
    | .serving, .pass running polled =>
        match hear running polled with
        | .ended => some c.finish
        | .nothing => some c
        | .message msg => (step env ctx c.session msg).map fun s => { c with session := s }
    | _, _ => none
  else none

/-- Every stream opened is closed once, and every object made is freed
once. -/
structure TornDown (served : List Exchange) : Prop where
  streams : (closed (eventsOf served)).Perm (opened (eventsOf served))
  once : (allocated (eventsOf served)).Nodup
  objects : (freed (eventsOf served)).Perm (allocated (eventsOf served))

structure Releases (c : Connection σ) : Prop where
  fault : c.session.fault = none
  tornDown : c.phase = .returned → TornDown c.session.served

def Exchange.closes (x : Exchange) (slot : Slot) : Prop :=
  x.msg.type = .close ∧ x.msg.handle = some slot

/-- The client was sent the handle and has not closed it since. -/
def Outstanding (served : List Exchange) (slot : Slot) : Prop :=
  ∃ before x after, served = before ++ x :: after ∧ .sent slot ∈ offers x.events ∧
    ∀ y ∈ after, ¬ y.closes slot

/-- The handle of the message belongs to no object, or to one that is not
released and of the kind that the message uses it as. -/
def FindsItsObject (ctx : SftpContext) (w : World σ) (msg : SftpClientMessage) : Prop :=
  ∀ info ∈ w.named msg, (msg.type = .close → w.live info ≠ none) ∧
    ∀ kind ∈ ctx.uses msg, (w.live info).map HandleData.kind = some kind

/-- A message finds its object, and the loop ends with every handle
closed. -/
def Tidy (ctx : SftpContext) (c : Connection σ) : Round → Prop
  | .prepared _ _ _ => True
  | .pass running polled => c.session.fault = none → c.phase = .serving →
      match hear running polled with
      | .ended => ∀ slot, ¬ Outstanding c.session.served slot
      | .nothing => True
      | .message msg => FindsItsObject ctx c.session.world msg

/-! ## Nothing left -/

/-- Everything is freed when no object is left. -/
theorem tornDown_iff {init : σ} {s : Session σ} (h : Accounted (Session.start init).world s) :
    TornDown s.served ↔ ∀ info, s.world.live info = none := by
  have hallocated := h.allocated_eq rfl
  constructor
  · intro htorn info
    rw [Multiset.coe_eq_coe.mpr htorn.objects] at hallocated
    have hnone : owing.held s.world = 0 :=
      (Multiset.add_right_inj.mp ((Multiset.add_zero _).trans hallocated)).symm
    by_contra hlive
    obtain ⟨data, hdata⟩ := Option.ne_none_iff_exists'.mp hlive
    have hmem : info ∈ owing.held s.world := mem_unreleased.mpr ⟨info, data, hdata, rfl⟩
    simp [hnone] at hmem
  · intro hnone
    have hheld : ∀ {ι : Type} (item : ObjectId → HandleData → Option ι),
        unreleased item s.world = 0 := by
      intro ι item
      refine Multiset.eq_zero_of_forall_notMem fun b hb => ?_
      obtain ⟨info, data, hlive, -⟩ := mem_unreleased.mp hb
      simp [hnone info] at hlive
    have hopened := h.opened_eq rfl
    rw [show streams.held s.world = 0 from hheld _, Multiset.add_zero] at hopened
    rw [show owing.held s.world = 0 from hheld _, Multiset.add_zero] at hallocated
    exact ⟨Multiset.coe_eq_coe.mp hopened.symm, h.nodup_allocated rfl,
      Multiset.coe_eq_coe.mp hallocated.symm⟩

/-! ## The handles and the objects -/

/-- A handle stands for one object, which is one of the heap. -/
structure Seated (w : World σ) : Prop where
  placed : ∀ slot info, w.table slot = some info → info < w.objects.length
  apart : ∀ slot slot' info, w.table slot = some info → w.table slot' = some info → slot = slot'

/-- The client has still to close exactly the objects not yet released. -/
structure Tracked (s : Session σ) : Prop where
  seated : Seated s.world
  reachable : ∀ info, s.world.live info ≠ none →
    ∃ slot, s.world.table slot = some info ∧ Outstanding s.served slot
  outstanding : ∀ slot, Outstanding s.served slot →
    ∃ info, s.world.table slot = some info ∧ s.world.live info ≠ none

theorem Tracked.no_live_iff {s : Session σ} (h : Tracked s) :
    (∀ info, s.world.live info = none) ↔ ∀ slot, ¬ Outstanding s.served slot := by
  constructor
  · intro hnone slot hslot
    obtain ⟨info, -, hlive⟩ := h.outstanding slot hslot
    exact hlive (hnone info)
  · intro hnone info
    by_contra hlive
    obtain ⟨slot, -, hslot⟩ := h.reachable info hlive
    exact hnone slot hslot

theorem outstanding_concat_iff {served : List Exchange} {x : Exchange} {slot : Slot} :
    Outstanding (served ++ [x]) slot ↔
      .sent slot ∈ offers x.events ∨ Outstanding served slot ∧ ¬ x.closes slot :=
  since_concat_iff

/-- An exchange that gives no handle out and closes none. -/
theorem outstanding_concat_of_unclosed {served : List Exchange} {x : Exchange}
    (hsent : ∀ slot, .sent slot ∉ offers x.events)
    (hclosed : ∀ slot, Outstanding served slot → ¬ x.closes slot) (slot : Slot) :
    Outstanding (served ++ [x]) slot ↔ Outstanding served slot := by
  rw [outstanding_concat_iff, or_iff_right (hsent slot)]
  exact and_iff_left_of_imp (hclosed slot)

theorem live_concat {w w' : World σ} {data : HandleData} {released : Bool}
    (h : w'.objects = w.objects ++ [⟨data, released⟩]) (info : ObjectId) :
    w'.live info = if info = w.objects.length then (if released then none else some data)
      else w.live info := by
  simp only [World.live, h]
  rcases lt_trichotomy info w.objects.length with hlt | rfl | hgt
  · rw [List.getElem?_append_left hlt, if_neg hlt.ne]
  · rw [List.getElem?_concat_length, if_pos rfl]
    cases released <;> rfl
  · have hlength : (w.objects ++ [(⟨data, released⟩ : Cell)]).length ≤ info := by
      rw [List.length_append, List.length_singleton]
      exact hgt
    rw [List.getElem?_eq_none hlength, List.getElem?_eq_none hgt.le, if_neg hgt.ne']

theorem live_concat_released_iff {w w' : World σ} {data : HandleData}
    (h : w'.objects = w.objects ++ [⟨data, true⟩]) (info : ObjectId) :
    w'.live info ≠ none ↔ w.live info ≠ none := by
  rw [live_concat h]
  split
  · next hlast =>
      subst hlast
      simp [World.live]
  · rfl

theorem Seated.same {w w' : World σ} (h : Seated w) (htable : w'.table = w.table)
    (hlength : w.objects.length ≤ w'.objects.length) : Seated w' := by
  refine ⟨fun slot info hslot => ?_, fun slot slot' info hslot hslot' => ?_⟩
  · rw [htable] at hslot
    exact (h.placed slot info hslot).trans_le hlength
  · rw [htable] at hslot hslot'
    exact h.apart slot slot' info hslot hslot'

/-- The object that is put into a slot is a new one. -/
theorem Seated.put {w w' : World σ} {slot : Slot} {cell : Cell} (h : Seated w)
    (htable : w'.table = w.table.put slot w.objects.length)
    (hobjects : w'.objects = w.objects ++ [cell]) : Seated w' := by
  refine ⟨fun slot' info hslot' => ?_, fun slot₁ slot₂ info h₁ h₂ => ?_⟩
  · rw [htable, SlotTable.put_eq_some_iff] at hslot'
    rw [hobjects, List.length_append, List.length_singleton]
    rcases hslot' with ⟨-, rfl⟩ | ⟨-, hslot'⟩
    · exact Nat.lt_succ_self _
    · exact Nat.lt_succ_of_lt (h.placed slot' info hslot')
  · rw [htable, SlotTable.put_eq_some_iff] at h₁ h₂
    rcases h₁ with ⟨rfl, rfl⟩ | ⟨-, h₁⟩
    · rcases h₂ with ⟨rfl, -⟩ | ⟨-, h₂⟩
      · rfl
      · exact absurd (h.placed _ _ h₂) (lt_irrefl _)
    · rcases h₂ with ⟨rfl, rfl⟩ | ⟨-, h₂⟩
      · exact absurd (h.placed _ _ h₁) (lt_irrefl _)
      · exact h.apart _ _ info h₁ h₂

/-! ## One message -/

theorem FindsItsObject.not_misused {w : World σ} {info : ObjectId} {fault : Fault}
    (h : FindsItsObject ctx w msg) (hnamed : w.named msg = some info) :
    ¬ Misused ctx w msg info fault := by
  rintro (⟨hclose, hnone, -⟩ | ⟨kind, hkind, hmisuse, -⟩)
  · exact (h info hnamed).1 hclose hnone
  · exact hmisuse ((h info hnamed).2 kind hkind)

theorem findsItsObject_of_givesHandle (w : World σ) (h : msg.type.givesHandle = true) :
    FindsItsObject ctx w msg := by
  intro info hinfo
  refine ⟨fun hclose => absurd hclose (MessageType.givesHandle.ne_close h), fun kind hkind => ?_⟩
  exact (fits_of_givesHandle w h).use kind hkind info hinfo

/-- A message that does not find its object is a fault, and no other is. -/
theorem serve_error?_eq_none_iff (env : Environment σ) (ctx : SftpContext) (s : Session σ)
    (msg : SftpClientMessage) :
    (s.serve env ctx msg).error? = none ↔ FindsItsObject ctx s.world msg := by
  cases serve_turn env ctx s msg with
  | idle fits idle unclosed =>
      refine iff_of_true idle.ok fun info hinfo => ⟨fun hclose => ?_, fun kind hkind => ?_⟩
      · simp [fits.close hclose] at hinfo
      · exact fits.use kind hkind info hinfo
  | fault info fault named misused error =>
      exact iff_of_false (by simp [error]) fun h => h.not_misused named misused
  | discarded data gives ok => exact iff_of_true ok (findsItsObject_of_givesHandle _ gives)
  | given data slot gives ok => exact iff_of_true ok (findsItsObject_of_givesHandle _ gives)
  | orphaned data slot gives ok => exact iff_of_true ok (findsItsObject_of_givesHandle _ gives)
  | closed info data type named live ok =>
      refine iff_of_true ok fun info' hinfo' => ?_
      obtain rfl := Option.some.inj (named.symm.trans hinfo')
      exact ⟨fun _ => by simp [live], by simp [SftpContext.uses, type]⟩

theorem not_closes_of_gives (h : msg.type.givesHandle = true)
    (events : List (Event Call.Answer)) (slot : Slot) : ¬ Exchange.closes ⟨msg, events⟩ slot :=
  fun hcloses => MessageType.givesHandle.ne_close h hcloses.1

/-- What is there stays there, and no handle is given out or closed. -/
theorem Tracked.carry {s t : Session σ} (h : Tracked s) (hseated : Seated t.world)
    (htable : ∀ slot info, s.world.table slot = some info → t.world.table slot = some info)
    (hlive : ∀ info, t.world.live info ≠ none ↔ s.world.live info ≠ none)
    (hopen : ∀ slot, Outstanding t.served slot ↔ Outstanding s.served slot) : Tracked t := by
  refine ⟨hseated, fun info hinfo => ?_, fun slot hslot => ?_⟩
  · obtain ⟨slot, hslot, hout⟩ := h.reachable info ((hlive info).mp hinfo)
    exact ⟨slot, htable slot info hslot, (hopen slot).mpr hout⟩
  · obtain ⟨info, hinfo, hnone⟩ := h.outstanding slot ((hopen slot).mp hslot)
    exact ⟨info, htable slot info hinfo, (hlive info).mpr hnone⟩

/-- A handle is given out for a new object. -/
theorem Tracked.give {s t : Session σ} {x : Exchange} {slot : Slot} {data : HandleData}
    (h : Tracked s) (hserved : t.served = s.served ++ [x]) (hfree : s.world.table slot = none)
    (htable : t.world.table = s.world.table.put slot s.world.objects.length)
    (hobjects : t.world.objects = s.world.objects ++ [⟨data, false⟩])
    (hoffers : offers x.events = [.sent slot]) (hcloses : ∀ slot, ¬ x.closes slot) : Tracked t := by
  have hne : ∀ slot' info, s.world.table slot' = some info → slot' ≠ slot := by
    rintro slot' info hslot' rfl
    simp [hfree] at hslot'
  refine ⟨h.seated.put htable hobjects, fun info hinfo => ?_, fun slot' hslot' => ?_⟩
  · rw [live_concat hobjects] at hinfo
    rw [hserved, htable]
    split at hinfo
    · next hlast =>
        refine ⟨slot, ?_, outstanding_concat_iff.mpr (.inl (by simp [hoffers]))⟩
        rw [hlast, SlotTable.put_self]
    · obtain ⟨slot', hslot', hout⟩ := h.reachable info hinfo
      refine ⟨slot', ?_, outstanding_concat_iff.mpr (.inr ⟨hout, hcloses slot'⟩)⟩
      rw [SlotTable.put_of_ne (hne slot' info hslot'), hslot']
  · rw [hserved] at hslot'
    rw [htable]
    rcases outstanding_concat_iff.mp hslot' with hsent | ⟨hout, -⟩
    · obtain rfl : slot' = slot := by simpa [hoffers] using hsent
      refine ⟨s.world.objects.length, SlotTable.put_self .., ?_⟩
      simp [live_concat hobjects]
    · obtain ⟨info, hinfo, hlive⟩ := h.outstanding slot' hout
      refine ⟨info, by rw [SlotTable.put_of_ne (hne slot' info hinfo), hinfo], ?_⟩
      rwa [live_concat hobjects, if_neg (h.seated.placed _ _ hinfo).ne]

/-- The object of a handle is released, and the handle closed. -/
theorem Tracked.close {s t : Session σ} {x : Exchange} {slot : Slot} {info : ObjectId}
    {data : HandleData} (h : Tracked s) (hserved : t.served = s.served ++ [x])
    (hslot : s.world.table slot = some info) (hlive : s.world.live info = some data)
    (htable : t.world.table = s.world.table)
    (hobjects : t.world.objects = s.world.objects.set info ⟨data, true⟩)
    (hoffers : offers x.events = []) (hcloses : ∀ slot', x.closes slot' ↔ slot' = slot) :
    Tracked t := by
  have hseated := h.seated.same htable (by simp [hobjects])
  refine ⟨hseated, fun other hother => ?_, fun slot' hslot' => ?_⟩
  · rw [live_released hlive hobjects] at hother
    rw [hserved, htable]
    split at hother
    · simp at hother
    · next hne =>
        obtain ⟨slot', hslot', hout⟩ := h.reachable other hother
        refine ⟨slot', hslot', outstanding_concat_iff.mpr (.inr ⟨hout, fun hclosed => hne ?_⟩)⟩
        obtain rfl := (hcloses slot').mp hclosed
        exact Option.some.inj (hslot'.symm.trans hslot)
  · rw [hserved] at hslot'
    rw [htable]
    rcases outstanding_concat_iff.mp hslot' with hsent | ⟨hout, hopen⟩
    · simp [hoffers] at hsent
    · obtain ⟨info', hinfo', hlive'⟩ := h.outstanding slot' hout
      refine ⟨info', hinfo', ?_⟩
      have hne : info' ≠ info := by
        rintro rfl
        exact hopen ((hcloses slot').mpr (h.seated.apart _ _ _ hinfo' hslot))
      rwa [live_released hlive hobjects, if_neg hne]

/-- The step lemma: a message that finds its object. -/
theorem Tracked.step {s t : Session σ} (h : Tracked s)
    (hfinds : FindsItsObject ctx s.world msg) (hstep : step env ctx s msg = some t) :
    Tracked t := by
  obtain ⟨-, rfl⟩ := step_eq_some_iff.mp hstep
  cases serve_turn env ctx s msg with
  | idle fits idle unclosed =>
      refine h.carry ?_ ?_ ?_ ?_
      · exact h.seated.same idle.table (by rw [idle.objects])
      · intro slot info hslot
        rw [idle.table]
        exact hslot
      · intro info
        rw [live_congr idle.objects]
      · refine outstanding_concat_of_unclosed (by simp [idle.offers]) ?_
        rintro slot hslot ⟨hclose, hhandle⟩
        obtain ⟨info, hinfo, -⟩ := h.outstanding slot hslot
        have hnamed := fits.close hclose
        rw [World.named, hhandle, Option.bind_some, hinfo] at hnamed
        cases hnamed
  | fault info fault named misused => exact absurd misused (hfinds.not_misused named)
  | discarded data gives ok table objects events =>
      refine h.carry ?_ ?_ ?_ ?_
      · exact h.seated.same table (by simp [objects])
      · intro slot info hslot
        rw [table]
        exact hslot
      · exact live_concat_released_iff objects
      · refine outstanding_concat_of_unclosed ?_ fun slot _ => not_closes_of_gives gives _ slot
        rcases events with events | ⟨events, -⟩ <;> simp [events]
  | given data slot gives ok chosen table objects events =>
      exact h.give rfl (env.slots.free _ _ chosen) table objects events
        (not_closes_of_gives gives _)
  | orphaned data slot gives ok chosen table objects events =>
      have hfree := env.slots.free _ _ chosen
      refine h.carry (h.seated.put table objects) ?_ (live_concat_released_iff objects) ?_
      · intro slot' info hslot'
        have hne : slot' ≠ slot := by
          rintro rfl
          simp [hfree] at hslot'
        rw [table, SlotTable.put_of_ne hne, hslot']
      · refine outstanding_concat_of_unclosed (by simp [events]) fun slot' _ => ?_
        exact not_closes_of_gives gives _ slot'
  | closed info data type named live ok table objects events closed =>
      obtain ⟨slot, hhandle, hslot⟩ := Option.bind_eq_some_iff.mp named
      refine h.close rfl hslot live table objects events fun slot' => ?_
      simp [Exchange.closes, type, hhandle, eq_comm]

/-! ## The whole session -/

/-- What is known of a session in which every round was tidy. -/
structure Kept (init : σ) (c : Connection σ) : Prop where
  releases : Releases c
  accounted : Accounted (Session.start init).world c.session
  unused : c.phase = .preparing → c.session = Session.start init
  tracked : c.phase = .serving → Tracked c.session

theorem tracked_start (init : σ) : Tracked (Session.start init) := by
  refine ⟨⟨?_, ?_⟩, ?_, ?_⟩
  · simp [Session.start]
  · simp [Session.start]
  · simp [Session.start, World.live]
  · rintro slot ⟨before, x, after, hsplit, -⟩
    simp [Session.start] at hsplit

theorem kept_start (init : σ) : Kept init (Connection.start init) :=
  ⟨⟨rfl, by simp [Connection.start]⟩, accounted_start init, fun _ => rfl,
    by simp [Connection.start]⟩

theorem handleSessionAfterAuth_cases {c d : Connection σ} {round : Round}
    (h : handleSessionAfterAuth env ctx c round = some d) : c.session.fault = none ∧
      (c.phase = .preparing ∧ (d = { c with phase := .serving } ∨ d = c.finish) ∨
        c.phase = .serving ∧ ∃ running polled, round = .pass running polled ∧
          (hear running polled = .ended ∧ d = c.finish ∨ hear running polled = .nothing ∧ d = c ∨
            ∃ msg s, hear running polled = .message msg ∧ step env ctx c.session msg = some s ∧
              d = { c with session := s })) := by
  unfold handleSessionAfterAuth at h
  split at h
  · next hfault =>
      refine ⟨hfault, ?_⟩
      split at h
      · next hphase =>
          split at h
          · exact .inl ⟨hphase, .inl (Option.some.inj h).symm⟩
          · exact .inl ⟨hphase, .inr (Option.some.inj h).symm⟩
      · next running polled hphase =>
          refine .inr ⟨hphase, running, polled, rfl, ?_⟩
          split at h
          · next hheard => exact .inl ⟨hheard, (Option.some.inj h).symm⟩
          · next hheard => exact .inr (.inl ⟨hheard, (Option.some.inj h).symm⟩)
          · next msg hheard =>
              obtain ⟨s, hs, hd⟩ := Option.map_eq_some_iff.mp h
              exact .inr (.inr ⟨msg, s, hheard, hs, hd.symm⟩)
      · cases h
  · cases h

theorem Kept.finish {init : σ} {c : Connection σ} (h : Kept init c)
    (hnone : ∀ info, c.session.world.live info = none) : Kept init c.finish where
  releases := ⟨h.releases.fault, fun _ => (tornDown_iff h.accounted).mpr hnone⟩
  accounted := ⟨h.accounted.streams, h.accounted.owing, h.accounted.addresses⟩
  unused := by simp [Connection.finish]
  tracked := by simp [Connection.finish]

/-- The step lemma: a tidy round. -/
theorem Kept.step {init : σ} {c d : Connection σ} {round : Round} (h : Kept init c)
    (htidy : Tidy ctx c round) (hstep : handleSessionAfterAuth env ctx c round = some d) :
    Kept init d := by
  obtain ⟨hfault, ⟨hphase, rfl | rfl⟩ | ⟨hphase, running, polled, rfl, hheard⟩⟩ :=
    handleSessionAfterAuth_cases hstep
  · have hsession := h.unused hphase
    refine ⟨⟨hfault, by simp⟩, h.accounted, by simp, fun _ => ?_⟩
    exact hsession ▸ tracked_start init
  · have hsession := h.unused hphase
    refine h.finish fun info => ?_
    rw [hsession]
    rfl
  · have hround := htidy hfault hphase
    have htracked := h.tracked hphase
    rcases hheard with ⟨hheard, rfl⟩ | ⟨-, rfl⟩ | ⟨msg, s, hheard, hs, rfl⟩
    · rw [hheard] at hround
      exact h.finish (htracked.no_live_iff.mpr hround)
    · exact h
    · rw [hheard] at hround
      obtain ⟨-, hs'⟩ := step_eq_some_iff.mp hs
      refine ⟨⟨?_, by simp [hphase]⟩, h.accounted.step hs, by simp [hphase], fun _ => ?_⟩
      · rw [hs']
        exact (serve_error?_eq_none_iff env ctx c.session msg).mpr hround
      · exact htracked.step hround hs

/-- Any other round leaves something open, or is a fault. -/
theorem Kept.not_releases {init : σ} {c : Connection σ} {round : Round} (h : Kept init c)
    (htidy : ¬ Tidy ctx c round) :
    ∃ d, handleSessionAfterAuth env ctx c round = some d ∧ ¬ Releases d := by
  cases round with
  | prepared => exact absurd trivial htidy
  | pass running polled =>
      simp only [Tidy, Classical.not_imp] at htidy
      obtain ⟨hfault, hphase, hround⟩ := htidy
      have htracked := h.tracked hphase
      cases hheard : hear running polled with
      | ended =>
          refine ⟨c.finish, by simp [handleSessionAfterAuth, hfault, hphase, hheard], ?_⟩
          intro hreleases
          simp only [hheard] at hround
          have htorn := hreleases.tornDown rfl
          exact hround (htracked.no_live_iff.mp ((tornDown_iff h.accounted).mp htorn))
      | nothing => simp [hheard] at hround
      | message msg =>
          simp only [hheard] at hround
          obtain ⟨s, hs⟩ : ∃ s, Sftp.step env ctx c.session msg = some s :=
            ⟨_, step_eq_some_iff.mpr ⟨hfault, rfl⟩⟩
          refine ⟨{ c with session := s },
            by simp [handleSessionAfterAuth, hfault, hphase, hheard, hs], fun hreleases => ?_⟩
          obtain ⟨-, rfl⟩ := step_eq_some_iff.mp hs
          exact hround ((serve_error?_eq_none_iff env ctx c.session msg).mp hreleases.fault)

/-- The end of a session. In every run nothing is left open and nothing is
freed twice exactly when every message finds its object and the loop ends
with every handle closed. -/
theorem teardown_iff (σ : Type) (env : Environment σ) (ctx : SftpContext) (init : σ)
    (rounds : List Round) :
    Always (handleSessionAfterAuth env ctx) Releases (Connection.start init) rounds ↔
      Along (handleSessionAfterAuth env ctx) (Tidy ctx) (Connection.start init) rounds :=
  always_iff_along (fun _ h => h.releases) (fun _ _ _ h htidy hstep => h.step htidy hstep)
    (fun _ _ h htidy => h.not_releases htidy) (kept_start init) rounds

/-! ## A client that goes away -/

/-- OPEN of a file, and then the end of the stream. -/
def abandonedFile : List Round :=
  [.prepared true true true,
    .pass true (.available (some { type := .open, filename := "notes", flags := OpenFlags.read })),
    .pass true (.nothing true true)]

theorem teardown_leaks :
    ¬ ∀ (σ : Type) (env : Environment σ) (ctx : SftpContext) (init : σ) (rounds : List Round),
      Always (handleSessionAfterAuth env ctx) Releases (Connection.start init) rounds := by
  intro h
  have hrun : ((run (handleSessionAfterAuth (granting (fun _ => some daveRoot) [] []) daveContext)
      (Connection.start ()) abandonedFile).any fun c =>
        decide (c.phase = .returned ∧ (freed (eventsOf c.session.served)).length = 0 ∧
          (allocated (eventsOf c.session.served)).length = 1)) = true := by
    decide +kernel
  obtain ⟨c, hc, hleft⟩ := (Option.any_eq_true _ _).mp hrun
  obtain ⟨hphase, hfreed, hallocated⟩ := of_decide_eq_true hleft
  have hreleases := (h Unit (granting (fun _ => some daveRoot) [] []) daveContext ()
    abandonedFile).of_run hc
  have hlength := (hreleases.tornDown hphase).objects.length_eq
  rw [hfreed, hallocated] at hlength
  cases hlength

end MockServices.Sftp
