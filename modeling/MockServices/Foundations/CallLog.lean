import MockServices.Foundations.Run
import Mathlib.Data.List.Basic

/-!
# Calls in progress

Several calls make progress in turns. Each has a point it has reached, and
whatever a call does is appended to one log under the number of the call. Some
acts also leave an entry in a history, which may be cleared.
-/

namespace MockServices.Foundations

structure CallLog (κ α : Type*) where
  points : List κ
  log : List (ℕ × α)

namespace CallLog

variable {κ α : Type*}

def empty : CallLog κ α := ⟨[], []⟩

/-- A further call at its first point. -/
def enter (calls : CallLog κ α) (point : κ) : CallLog κ α :=
  { calls with points := calls.points ++ [point] }

/-- Call `i` does `acts` and reaches `point`. -/
def advance (calls : CallLog κ α) (i : ℕ) (point : κ) (acts : List α) : CallLog κ α where
  points := calls.points.set i point
  log := calls.log ++ acts.map fun act => (i, act)

def doneBy (calls : CallLog κ α) (i : ℕ) : List α :=
  calls.log.filterMap fun entry => if entry.1 = i then some entry.2 else none

/-- What has been done, by whichever call. -/
def acts (calls : CallLog κ α) : List α := calls.log.map Prod.snd

/-- What a call has done is what `past` says of the point it has reached. -/
def Accounted (past : κ → List α) (calls : CallLog κ α) : Prop :=
  ∀ i, calls.doneBy i = (calls.points[i]?.map past).getD []

@[simp] theorem doneBy_enter (calls : CallLog κ α) (point : κ) (i : ℕ) :
    (calls.enter point).doneBy i = calls.doneBy i := rfl

theorem doneBy_advance (calls : CallLog κ α) (i j : ℕ) (point : κ) (acts : List α) :
    (calls.advance i point acts).doneBy j =
      calls.doneBy j ++ if i = j then acts else [] := by
  by_cases h : i = j <;> simp [doneBy, advance, h, List.filterMap_map]

@[simp] theorem acts_enter (calls : CallLog κ α) (point : κ) :
    (calls.enter point).acts = calls.acts := rfl

@[simp] theorem acts_advance (calls : CallLog κ α) (i : ℕ) (point : κ) (acts : List α) :
    (calls.advance i point acts).acts = calls.acts ++ acts := by
  simp [CallLog.acts, advance, Function.comp_def]

section Kept

variable {ε : Type*} (f : κ → ε)

theorem map_points_enter (calls : CallLog κ α) (point : κ) :
    (calls.enter point).points.map f = calls.points.map f ++ [f point] := by
  simp [enter]

/-- What a call keeps from its first point to its last. -/
theorem map_points_advance {calls : CallLog κ α} {i : ℕ} {point next : κ} (acts : List α)
    (hpoint : calls.points[i]? = some point) (hkept : f next = f point) :
    (calls.advance i next acts).points.map f = calls.points.map f := by
  obtain ⟨hlt, hget⟩ := List.getElem?_eq_some_iff.mp hpoint
  rw [advance, List.map_set, hkept, ← hget, ← List.map_set, List.set_getElem_self]

end Kept

variable {past : κ → List α} {calls : CallLog κ α}

/-- Where a call is after another has entered. -/
theorem points_enter_cases {n : ℕ} {point next : κ}
    (h : (calls.enter next).points[n]? = some point) :
    point = next ∨ calls.points[n]? = some point := by
  rw [CallLog.enter] at h
  rcases Nat.lt_or_ge n calls.points.length with hlt | hge
  · rw [List.getElem?_append_left hlt] at h
    exact Or.inr h
  · rw [List.getElem?_append_right hge] at h
    exact Or.inl (List.mem_singleton.mp (List.mem_of_getElem? h))

/-- Where a call is after one has advanced. -/
theorem points_advance_cases {i n : ℕ} {old next point : κ} {acts : List α}
    (hold : calls.points[i]? = some old)
    (h : (calls.advance i next acts).points[n]? = some point) :
    n = i ∧ point = next ∨ calls.points[n]? = some point := by
  rw [CallLog.advance] at h
  by_cases hni : i = n
  · subst hni
    rw [List.getElem?_set_self (List.getElem?_eq_some_iff.mp hold).1] at h
    exact Or.inl ⟨rfl, (Option.some.inj h).symm⟩
  · rw [List.getElem?_set_ne hni] at h
    exact Or.inr h

theorem accounted_empty : Accounted past empty := fun _ => rfl

theorem Accounted.enter (h : calls.Accounted past) {point : κ} (hpast : past point = []) :
    (calls.enter point).Accounted past := by
  intro i
  rw [doneBy_enter, h i, CallLog.enter]
  rcases Nat.lt_trichotomy i calls.points.length with hlt | rfl | hgt
  · rw [List.getElem?_append_left hlt]
  · simp [hpast]
  · have hbeyond : calls.points.length + 1 ≤ i := hgt
    rw [List.getElem?_eq_none (Nat.le_of_lt hgt), List.getElem?_eq_none (by simpa using hbeyond)]

theorem Accounted.advance (h : calls.Accounted past) {i : ℕ} {point next : κ} {acts : List α}
    (hpoint : calls.points[i]? = some point) (hpast : past next = past point ++ acts) :
    (calls.advance i next acts).Accounted past := by
  intro j
  rw [doneBy_advance, h j]
  by_cases hij : i = j
  · subst hij
    have hlt : i < calls.points.length := (List.getElem?_eq_some_iff.mp hpoint).1
    simp [CallLog.advance, hpoint, hpast, List.getElem?_set_self hlt]
  · simp [CallLog.advance, hij, List.getElem?_set_ne hij]

theorem Accounted.at (h : calls.Accounted past) {i : ℕ} {point : κ}
    (hpoint : calls.points[i]? = some point) : calls.doneBy i = past point := by
  rw [h i, hpoint]
  rfl

section Histories

variable {ε η σ ι : Type*} (past : κ → List α) (entry : κ → ε) (recording : α → Option η)

/-- One step of calls that append to a history: a call enters, or one of
them does what separates two of its points. -/
inductive Moved (clears : Prop) (calls : CallLog κ α) (history : List η) :
    CallLog κ α → List η → Prop
  | idle : Moved clears calls history calls history
  | clear : clears → Moved clears calls history calls []
  | enter {point : κ} : past point = [] → Moved clears calls history (calls.enter point) history
  | advance {i : ℕ} {point next : κ} {acts : List α} {further : List η} :
      calls.points[i]? = some point → past next = past point ++ acts → entry next = entry point →
      further = history ++ acts.filterMap recording →
      Moved clears calls history (calls.advance i next acts) further

/-- Every entry that was ever appended to the history. -/
def recordings (calls : CallLog κ α) : List η := calls.acts.filterMap recording

variable {past entry recording}
variable {clears : Prop} {next : CallLog κ α} {history further : List η}

theorem Moved.accounted (hmoved : Moved past entry recording clears calls history next further)
    (h : calls.Accounted past) : next.Accounted past := by
  cases hmoved with
  | idle => exact h
  | clear _ => exact h
  | enter hpast => exact h.enter hpast
  | advance hpoint hpast _ _ => exact h.advance hpoint hpast

theorem Moved.entries (hmoved : Moved past entry recording clears calls history next further) :
    calls.points.map entry <+: next.points.map entry := by
  cases hmoved with
  | idle => exact List.prefix_rfl
  | clear _ => exact List.prefix_rfl
  | enter _ =>
      rw [map_points_enter]
      exact List.prefix_append _ _
  | advance hpoint _ hentry _ => rw [map_points_advance _ _ hpoint hentry]

theorem Moved.history_suffix
    (hmoved : Moved past entry recording clears calls history next further)
    (h : history <:+ calls.recordings recording) : further <:+ next.recordings recording := by
  cases hmoved with
  | idle => exact h
  | clear _ => exact List.nil_suffix
  | enter _ => exact h
  | advance _ _ _ hadded =>
      obtain ⟨forgotten, hforgotten⟩ := h
      refine ⟨forgotten, ?_⟩
      rw [hadded, recordings, acts_advance, List.filterMap_append, ← recordings, ← hforgotten,
        List.append_assoc]

theorem Moved.history_eq (hmoved : Moved past entry recording clears calls history next further)
    (hclears : ¬ clears) (h : history = calls.recordings recording) :
    further = next.recordings recording := by
  cases hmoved with
  | idle => exact h
  | clear hcleared => exact absurd hcleared hclears
  | enter _ => exact h
  | advance _ _ _ hadded =>
      rw [hadded, h, recordings, recordings, acts_advance, List.filterMap_append]

section Runs

variable {step : σ → ι → Option σ} {callsOf : σ → CallLog κ α} {historyOf : σ → List η}
  {clearing : ι → Prop} (hmoved : ∀ s e t, step s e = some t →
    Moved past entry recording (clearing e) (callsOf s) (historyOf s) (callsOf t) (historyOf t))
  {s t : σ} {is : List ι} (hrun : run step s is = some t)

include hmoved hrun

theorem accounted_run (h : (callsOf s).Accounted past) : (callsOf t).Accounted past :=
  run_invariant (I := fun u => (callsOf u).Accounted past)
    (fun u e v h hstep => (hmoved u e v hstep).accounted h) h hrun

theorem entries_run : (callsOf s).points.map entry <+: (callsOf t).points.map entry :=
  run_invariant (I := fun u => (callsOf s).points.map entry <+: (callsOf u).points.map entry)
    (fun u e v h hstep => h.trans (hmoved u e v hstep).entries) List.prefix_rfl hrun

theorem history_suffix_run (h : historyOf s <:+ (callsOf s).recordings recording) :
    historyOf t <:+ (callsOf t).recordings recording :=
  run_invariant (I := fun u => historyOf u <:+ (callsOf u).recordings recording)
    (fun u e v h hstep => (hmoved u e v hstep).history_suffix h) h hrun

/-- Where nothing is cleared nothing is forgotten. -/
theorem history_eq_run (hclearing : ∀ e ∈ is, ¬ clearing e)
    (h : historyOf s = (callsOf s).recordings recording) :
    historyOf t = (callsOf t).recordings recording := by
  induction is generalizing s with
  | nil =>
      have hst : s = t := by simpa using hrun
      exact hst ▸ h
  | cons e is ih =>
      obtain ⟨u, hu, ht⟩ := run_cons_some_iff.mp hrun
      exact ih ht (fun e he => hclearing e (List.mem_cons_of_mem _ he))
        ((hmoved s e u hu).history_eq (hclearing e List.mem_cons_self) h)

omit hmoved hrun in
/-- The same for a run, a call that arrives and the run that goes on. -/
theorem history_eq_of_notMem {clear arrival : ι} {u : σ} {later : List ι}
    (hmoved : ∀ s e t, step s e = some t →
      Moved past entry recording (e = clear) (callsOf s) (historyOf s) (callsOf t) (historyOf t))
    (hrun : run step s is = some t) (hlater : run step t (arrival :: later) = some u)
    (harrival : arrival ≠ clear) (hclear : clear ∉ is ++ later)
    (h : historyOf s = (callsOf s).recordings recording) :
    historyOf u = (callsOf u).recordings recording := by
  refine history_eq_run hmoved (run_append hrun hlater) (fun e he => ?_) h
  rintro rfl
  rw [List.mem_append, List.mem_cons] at he
  rw [List.mem_append, not_or] at hclear
  rcases he with hbefore | hfirst | hafter
  · exact hclear.1 hbefore
  · exact harrival hfirst.symm
  · exact hclear.2 hafter

/-- A call that has entered with `kept` is found there ever after. -/
theorem entered_run {front : List ε} {kept : ε}
    (hentered : (callsOf s).points.map entry = front ++ [kept]) :
    ∃ point, (callsOf t).points[front.length]? = some point ∧ entry point = kept := by
  obtain ⟨rest, hrest⟩ := entries_run hmoved hrun
  rw [← Option.map_eq_some_iff, ← List.getElem?_map, ← hrest, hentered, List.append_assoc,
    List.getElem?_append_right (Nat.le_refl _)]
  simp

end Runs

end Histories

end CallLog

end MockServices.Foundations
