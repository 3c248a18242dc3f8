import MockServices.Sftp.Turns

/-!
# The lifetime of handles

`sftp_handle_remove` is given the handle string where libssh expects the
stored object, so it clears nothing. As long as no CLOSE finds an object
and every handle reaches the client, every occupied slot holds a live
object and the slots are exactly the handles given out. The first step
that does otherwise leaves a slot behind whose object is gone.
-/

namespace MockServices.Sftp

open Foundations

variable {σ : Type}

/-- The handles that reached the client. -/
def sentCount (served : List Exchange) : ℕ :=
  (served.map fun x => (offers x.events).countP fun o => match o with
    | .sent _ => true
    | _ => false).sum

def closedCount (served : List Exchange) : ℕ := served.countP Exchange.closedOk

/-- The messages that name a handle. -/
def MessageType.takesHandle : MessageType → Bool
  | .close | .read | .write | .readdir | .fstat | .fsetstat => true
  | _ => false

/-- What the client may expect of its handles. -/
structure HandleLaw (s : Session σ) : Prop where
  unreleased : ∀ fault, s.fault = some fault → fault.released = false
  balance : s.world.table.occupied.card + closedCount s.served = sentCount s.served
  enough : ∀ before x after, s.served = before ++ x :: after → .lacked ∈ offers x.events →
    sentCount before = closedCount before + 256
  invalid : ∀ before x mid y after slot, s.served = before ++ x :: (mid ++ y :: after) →
    x.closedOk = true → x.msg.handle = some slot → (∀ z ∈ mid, .sent slot ∉ offers z.events) →
    y.msg.type.takesHandle = true → y.msg.handle = some slot →
    replies y.events = [.status .invalidHandle none]

/-- No CLOSE finds an object, and every handle string reaches the client. -/
def KeepsHandles (env : Environment σ) (ctx : SftpContext) (s : Session σ)
    (msg : SftpClientMessage) : Prop :=
  s.fault = none → ¬ (msg.type = .close ∧ s.world.named msg ≠ none) ∧
    ∀ slot, .unsent slot ∉ offers (s.serve env ctx msg).events

/-- Nothing was ever closed, and every slot holds a live object. -/
structure Owned (s : Session σ) : Prop where
  law : HandleLaw s
  unclosed : ∀ x ∈ s.served, x.closedOk = false
  live : ∀ slot info, s.world.table slot = some info → s.world.live info ≠ none

@[simp] theorem sentCount_nil : sentCount [] = 0 := rfl

@[simp] theorem sentCount_append (xs ys : List Exchange) :
    sentCount (xs ++ ys) = sentCount xs + sentCount ys := by
  simp [sentCount]

theorem closedCount_append (xs ys : List Exchange) :
    closedCount (xs ++ ys) = closedCount xs + closedCount ys := List.countP_append

theorem sentCount_singleton {msg : SftpClientMessage} {events : List (Event Call.Answer)}
    {os : List Offer} (h : offers events = os) :
    sentCount [⟨msg, events⟩] = os.countP fun o => match o with
      | .sent _ => true
      | _ => false := by
  simp [sentCount, h]

theorem closedCount_singleton (x : Exchange) :
    closedCount [x] = if x.closedOk = true then 1 else 0 := by
  simp [closedCount, List.countP_cons]

theorem closedCount_eq_zero {served : List Exchange} (h : ∀ x ∈ served, x.closedOk = false) :
    closedCount served = 0 := by
  rw [closedCount, List.countP_eq_zero]
  intro x hx
  simp [h x hx]

theorem live_append {w w' : World σ} {cell : Cell} (hobjects : w'.objects = w.objects ++ [cell])
    {info : ObjectId} (h : w.live info ≠ none) : w'.live info ≠ none := by
  obtain ⟨data, hdata⟩ := Option.ne_none_iff_exists'.mp h
  have hcell := live_eq_some_iff.mp hdata
  have hlive : w'.live info = some data := by
    rw [live_eq_some_iff, hobjects, List.getElem?_append_left, hcell]
    exact (List.getElem?_eq_some_iff.mp hcell).1
  simp [hlive]

theorem live_congr {w w' : World σ} (h : w'.objects = w.objects) (info : ObjectId) :
    w'.live info = w.live info := by
  simp [World.live, h]

theorem live_released {w w' : World σ} {info : ObjectId} {data : HandleData}
    (hlive : w.live info = some data) (h : w'.objects = w.objects.set info ⟨data, true⟩)
    (other : ObjectId) : w'.live other = if other = info then none else w.live other := by
  have hlt := (List.getElem?_eq_some_iff.mp (live_eq_some_iff.mp hlive)).1
  simp only [World.live, h]
  by_cases hother : other = info
  · subst hother
    rw [List.getElem?_set_self hlt, if_pos rfl]
  · rw [List.getElem?_set_ne (Ne.symm hother), if_neg hother]

theorem misuse_released {w : World σ} {info : ObjectId} (kind : HandleKind)
    (h : w.live info ≠ none) : (w.misuse kind info).released = false := by
  obtain ⟨data, hdata⟩ := Option.ne_none_iff_exists'.mp h
  simp [World.misuse, live_eq_some_iff.mp hdata]

theorem Owned.named_live {s : Session σ} (h : Owned s) {msg : SftpClientMessage} {info : ObjectId}
    (hnamed : s.world.named msg = some info) : s.world.live info ≠ none := by
  obtain ⟨slot, -, hslot⟩ := Option.bind_eq_some_iff.mp hnamed
  exact h.live slot info hslot

theorem ne_close_of_gives {msg : SftpClientMessage} (h : msg.type.givesHandle = true)
    (events : List (Event Call.Answer)) : Exchange.closedOk ⟨msg, events⟩ = false :=
  closedOk_of_type_ne (MessageType.givesHandle.ne_close h)

/-- One more exchange that closes nothing. -/
theorem Owned.extend {s t : Session σ} {x : Exchange} (h : Owned s)
    (hserved : t.served = s.served ++ [x]) (hclosed : x.closedOk = false)
    (hfault : ∀ fault, t.fault = some fault → fault.released = false)
    (hbalance : t.world.table.occupied.card = sentCount t.served)
    (henough : .lacked ∈ offers x.events → s.world.table.occupied.card = 256)
    (hlive : ∀ slot info, t.world.table slot = some info → t.world.live info ≠ none) :
    Owned t := by
  have hunclosed : ∀ y ∈ t.served, y.closedOk = false := by
    intro y hy
    rcases List.mem_append.mp (hserved ▸ hy) with hy | hy
    · exact h.unclosed y hy
    · exact List.mem_singleton.mp hy ▸ hclosed
  refine ⟨⟨hfault, ?_, ?_, ?_⟩, hunclosed, hlive⟩
  · rw [closedCount_eq_zero hunclosed, hbalance, Nat.add_zero]
  · intro before y after hsplit hlacked
    rw [hserved] at hsplit
    rcases split_concat hsplit with ⟨rfl, rfl, -⟩ | ⟨after', -, hsplit⟩
    · have hbalance' := h.law.balance
      have hcard := henough hlacked
      omega
    · exact h.law.enough before y after' hsplit hlacked
  · intro before y mid z after slot hsplit hy
    have hmem : y ∈ t.served := by rw [hsplit]; simp
    simp [hunclosed y hmem] at hy

/-- The step lemma: a step that keeps the handles keeps the law. -/
theorem Owned.step {env : Environment σ} {ctx : SftpContext} {s t : Session σ}
    {msg : SftpClientMessage} (h : Owned s) (hkeeps : KeepsHandles env ctx s msg)
    (hstep : step env ctx s msg = some t) : Owned t := by
  obtain ⟨hfault, rfl⟩ := step_eq_some_iff.mp hstep
  obtain ⟨hclose, hunsent⟩ := hkeeps hfault
  have hzero := closedCount_eq_zero h.unclosed
  have hbalance := h.law.balance
  cases serve_turn env ctx s msg with
  | idle fits idle unclosed =>
      refine h.extend rfl unclosed (by simp [idle.ok]) ?_ (by simp [idle.offers]) ?_
      · simp only [idle.table, sentCount_append, sentCount_singleton idle.offers]
        simpa [hzero] using hbalance
      · simpa only [idle.table, live_congr idle.objects] using h.live
  | fault info fault named misused error table objects events unclosed =>
      have hlive := h.named_live named
      refine h.extend rfl unclosed ?_ ?_ (by simp [events]) ?_
      · intro fault' hfault'
        obtain rfl := Option.some.inj (error.symm.trans hfault')
        rcases misused with ⟨-, hnone, -⟩ | ⟨kind, -, -, rfl⟩
        · exact absurd hnone hlive
        · exact misuse_released kind hlive
      · simp only [table, sentCount_append, sentCount_singleton events]
        simpa [hzero] using hbalance
      · simpa only [table, live_congr objects] using h.live
  | discarded data gives ok table objects events =>
      refine h.extend rfl (ne_close_of_gives gives _) (by simp [ok]) ?_ ?_ ?_
      · simp only [table, sentCount_append]
        rcases events with events | ⟨events, -⟩
        · simpa [sentCount_singleton events, hzero] using hbalance
        · simpa [sentCount_singleton events, hzero] using hbalance
      · rcases events with events | ⟨-, hfull⟩
        · simp [events]
        · exact fun _ => SlotTable.card_occupied_of_full (env.slots.full _ hfull)
      · intro slot info hslot
        rw [table] at hslot
        exact live_append objects (h.live slot info hslot)
  | given data slot gives ok chosen table objects events =>
      refine h.extend rfl (ne_close_of_gives gives _) (by simp [ok]) ?_ (by simp [events]) ?_
      · simp only [table, SlotTable.card_occupied_put (env.slots.free _ _ chosen), sentCount_append,
          sentCount_singleton events]
        simpa [hzero] using hbalance
      · intro slot' info hslot
        rw [table, SlotTable.put_eq_some_iff] at hslot
        rcases hslot with ⟨-, rfl⟩ | ⟨-, hslot⟩
        · simp [live_last _ objects]
        · exact live_append objects (h.live slot' info hslot)
  | orphaned data slot gives ok chosen table objects events =>
      exact absurd (by simp [events]) (hunsent slot)
  | closed info data type named =>
      exact absurd ⟨type, by simp [named]⟩ hclose

/-- Any other step breaks the law at once. -/
theorem Owned.not_law {env : Environment σ} {ctx : SftpContext} {s t : Session σ}
    {msg : SftpClientMessage} (h : Owned s) (hkeeps : ¬ KeepsHandles env ctx s msg)
    (hstep : Sftp.step env ctx s msg = some t) : ¬ HandleLaw t := by
  obtain ⟨hfault, rfl⟩ := step_eq_some_iff.mp hstep
  have hloses : ∀ {P : Prop}, (msg.type = .close → s.world.named msg = none) →
      (∀ slot, .unsent slot ∉ offers (s.serve env ctx msg).events) → P := by
    intro P hclose hunsent
    exact absurd (fun _ => ⟨fun hc => hc.2 (hclose hc.1), hunsent⟩) hkeeps
  intro hlaw
  have hbefore := h.law.balance
  have hafter := hlaw.balance
  simp only [sentCount_append, closedCount_append, closedCount_singleton] at hafter
  cases serve_turn env ctx s msg with
  | idle fits idle unclosed => exact hloses fits.close (by simp [idle.offers])
  | fault info fault named misused error table objects events =>
      refine hloses (fun hclose => ?_) (by simp [events])
      rcases misused with ⟨-, hnone, -⟩ | ⟨kind, hkind, -⟩
      · exact absurd hnone (h.named_live named)
      · simp [SftpContext.uses, hclose] at hkind
  | discarded data gives ok table objects events =>
      refine hloses (fun hclose => absurd hclose (MessageType.givesHandle.ne_close gives)) ?_
      rcases events with events | ⟨events, -⟩ <;> simp [events]
  | given data slot gives ok chosen table objects events =>
      exact hloses (fun hclose => absurd hclose (MessageType.givesHandle.ne_close gives))
        (by simp [events])
  | orphaned data slot gives ok chosen table objects events =>
      simp only [table, SlotTable.card_occupied_put (env.slots.free _ _ chosen),
        ne_close_of_gives gives, sentCount_singleton events] at hafter
      simp at hafter
      omega
  | closed info data type named live ok table objects events closed =>
      simp only [table, closed, sentCount_singleton events] at hafter
      simp at hafter
      omega

theorem owned_start (init : σ) : Owned (Session.start init) := by
  have hoccupied : SlotTable.occupied (fun _ => none : SlotTable 256 ObjectId) = ∅ := by
    ext slot
    simp [SlotTable.mem_occupied]
  refine ⟨⟨?_, ?_, ?_, ?_⟩, ?_, ?_⟩
  · simp [Session.start]
  · simp [Session.start, hoccupied, closedCount]
  · simp [Session.start]
  · simp [Session.start]
  · simp [Session.start]
  · simp [Session.start]

/-- The lifetime of handles. In every run of a session the client's
expectations hold in every state exactly when no CLOSE finds an object
and every handle reaches the client. -/
theorem handle_lifetime_iff (σ : Type) (env : Environment σ) (ctx : SftpContext) (init : σ)
    (msgs : List SftpClientMessage) :
    Always (step env ctx) HandleLaw (Session.start init) msgs ↔
      Along (step env ctx) (KeepsHandles env ctx) (Session.start init) msgs := by
  refine always_iff_along (fun _ h => h.law) (fun _ _ _ h hkeeps hstep => h.step hkeeps hstep)
    (fun s msg h hkeeps => ?_) (owned_start init) msgs
  have hfault : s.fault = none := by
    by_contra hfault
    exact hkeeps fun hnone => absurd hnone hfault
  obtain ⟨t, ht⟩ : ∃ t, step env ctx s msg = some t :=
    ⟨_, step_eq_some_iff.mpr ⟨hfault, rfl⟩⟩
  exact ⟨t, ht, h.not_law hkeeps ht⟩

/-! ## A READ after CLOSE -/

def daveRoot : Canonical where
  names := ["srv", "dave"]
  isName := by decide

def daveContext : SftpContext where
  username := "dave"
  root := daveRoot.text
  perm := SftpPermission.all

def reusedHandle : List SftpClientMessage :=
  [{ type := .open, filename := "notes", flags := OpenFlags.read },
    { type := .close, handle := some 0 }, { type := .read, handle := some 0, len := 1 }]

theorem handle_lifetime_broken :
    ¬ ∀ (σ : Type) (env : Environment σ) (ctx : SftpContext) (init : σ)
      (msgs : List SftpClientMessage),
      Always (step env ctx) HandleLaw (Session.start init) msgs := by
  intro h
  have hrun : (run (step (granting (fun _ => some daveRoot) [] []) daveContext) (Session.start ())
      reusedHandle).map Session.fault = some (some ⟨true, false⟩) := by
    decide +kernel
  obtain ⟨t, ht, hfault⟩ := Option.map_eq_some_iff.mp hrun
  have hlaw :=
    (h Unit (granting (fun _ => some daveRoot) [] []) daveContext () reusedHandle).of_run ht
  exact absurd (hlaw.unreleased _ hfault) (by decide)

end MockServices.Sftp
