import Mathlib.Data.List.Basic

/-!
# Programs that call their environment

A program is a tree: it is done with a result, or it makes a call and
goes on with the answer. A machine performs the calls on a world, and a
call may be a fault, which ends the execution. What a program guarantees
about its calls, relying on the answers, is proved along the tree once
and read off every execution.
-/

namespace MockServices.Foundations

variable {Call : Type} {Answer : Call → Type} {ω ε α β : Type}

inductive Program (Call : Type) (Answer : Call → Type) (α : Type) where
  | done (result : α)
  | call (c : Call) (next : Answer c → Program Call Answer α)

/-- A call together with the answer it got. -/
abbrev Event (Answer : Call → Type) := Σ c : Call, Answer c

structure Execution (Answer : Call → Type) (ω ε α : Type) where
  events : List (Event Answer)
  world : ω
  outcome : Except ε α

/-- The fault that ended the execution. -/
def Execution.error? (x : Execution Answer ω ε α) : Option ε :=
  match x.outcome with
  | .ok _ => none
  | .error e => some e

def Execution.after (x : Execution Answer ω ε α) (events : List (Event Answer)) :
    Execution Answer ω ε α :=
  ⟨events ++ x.events, x.world, x.outcome⟩

section After

variable (x : Execution Answer ω ε α) (events : List (Event Answer))

@[simp] theorem Execution.after_events : (x.after events).events = events ++ x.events := rfl

@[simp] theorem Execution.after_world : (x.after events).world = x.world := rfl

@[simp] theorem Execution.after_error? : (x.after events).error? = x.error? := rfl

@[simp] theorem Execution.error?_ok (w : ω) (a : α) :
    (⟨events, w, .ok a⟩ : Execution Answer ω ε α).error? = none := rfl

@[simp] theorem Execution.error?_error (w : ω) (e : ε) :
    (⟨events, w, .error e⟩ : Execution Answer ω ε α).error? = some e := rfl

theorem Execution.after_after (events' : List (Event Answer)) :
    (x.after events).after events' = x.after (events' ++ events) := by
  simp [after]

end After

namespace Program

def bind : Program Call Answer α → (α → Program Call Answer β) → Program Call Answer β
  | done a, f => f a
  | call c next, f => call c fun answer => (next answer).bind f

instance : Monad (Program Call Answer) where
  pure := done
  bind := bind

def request (c : Call) : Program Call Answer (Answer c) := call c done

/-- A fault ends the execution in the world it happened in. -/
def execute (perform : ω → (c : Call) → Except ε (Answer c × ω)) (w : ω) :
    Program Call Answer α → Execution Answer ω ε α
  | done a => ⟨[], w, .ok a⟩
  | call c next =>
      match perform w c with
      | .error e => ⟨[], w, .error e⟩
      | .ok (answer, w') => (execute perform w' (next answer)).after [⟨c, answer⟩]

/-- As long as every answer is one of `rely`, every call is one of `guar`
and the result satisfies `post`. -/
def Ensures (rely : ∀ c, Answer c → Prop) (guar : Call → Prop) (post : α → Prop) :
    Program Call Answer α → Prop
  | done a => post a
  | call c next => guar c ∧ ∀ answer, rely c answer → (next answer).Ensures rely guar post

/-- As long as every answer is one of `rely`, the program makes exactly
`n` of the counted calls until it is done. -/
def Counts (rely : ∀ c, Answer c → Prop) (counted : Call → Bool) :
    Program Call Answer α → ℕ → Prop
  | done _, n => n = 0
  | call c next, n => ∃ m, n = (counted c).toNat + m ∧
      ∀ answer, rely c answer → (next answer).Counts rely counted m

@[simp] theorem pure_eq_done (a : α) : (pure a : Program Call Answer α) = done a := rfl

@[simp] theorem done_bind (a : α) (f : α → Program Call Answer β) : done a >>= f = f a := rfl

@[simp] theorem call_bind (c : Call) (next : Answer c → Program Call Answer α)
    (f : α → Program Call Answer β) : call c next >>= f = call c fun a => next a >>= f := rfl

@[simp] theorem request_bind (c : Call) (f : Answer c → Program Call Answer β) :
    request c >>= f = call c f := rfl

theorem bind_done (p : Program Call Answer α) : p >>= done = p := by
  induction p with
  | done a => rfl
  | call c next ih => exact congrArg (call c) (funext ih)

theorem bind_assoc {γ : Type} (p : Program Call Answer α) (f : α → Program Call Answer β)
    (g : β → Program Call Answer γ) : p >>= f >>= g = p >>= fun a => f a >>= g := by
  induction p with
  | done a => rfl
  | call c next ih => exact congrArg (call c) (funext ih)

section Ensures

variable {rely : ∀ c, Answer c → Prop} {guar : Call → Prop} {post : α → Prop}

theorem Ensures.mono {guar' : Call → Prop} {p : Program Call Answer α}
    (h : p.Ensures rely guar post) (hguar : ∀ c, guar c → guar' c) : p.Ensures rely guar' post := by
  induction p with
  | done a => exact h
  | call c next ih => exact ⟨hguar c h.1, fun answer hanswer => ih answer (h.2 answer hanswer)⟩

/-- More is relied on than is needed. -/
theorem Ensures.of_rely {rely' : ∀ c, Answer c → Prop} {p : Program Call Answer α}
    (h : p.Ensures rely guar post) (hrely : ∀ c answer, rely' c answer → rely c answer) :
    p.Ensures rely' guar post := by
  induction p with
  | done a => exact h
  | call c next ih =>
      exact ⟨h.1, fun answer hanswer => ih answer (h.2 answer (hrely c answer hanswer))⟩

/-- Nothing is asked of the calls or of the result. -/
theorem ensures_of_forall (p : Program Call Answer α) (hguar : ∀ c, guar c)
    (hpost : ∀ a, post a) : p.Ensures rely guar post := by
  induction p with
  | done a => exact hpost a
  | call c next ih => exact ⟨hguar c, fun answer _ => ih answer⟩

theorem ensures_bind {mid : α → Prop} {post : β → Prop} {p : Program Call Answer α}
    {f : α → Program Call Answer β} (hp : p.Ensures rely guar mid)
    (hf : ∀ a, mid a → (f a).Ensures rely guar post) : (p >>= f).Ensures rely guar post := by
  induction p with
  | done a => exact hf a hp
  | call c next ih => exact ⟨hp.1, fun answer hanswer => ih answer (hp.2 answer hanswer)⟩

end Ensures

section Counts

variable {rely : ∀ c, Answer c → Prop} {counted : Call → Bool} {m n : ℕ}

theorem counts_done (a : α) : (done a : Program Call Answer α).Counts rely counted 0 := rfl

theorem counts_call {c : Call} {next : Answer c → Program Call Answer α}
    (h : ∀ answer, rely c answer → (next answer).Counts rely counted n) :
    (call c next).Counts rely counted ((counted c).toNat + n) :=
  ⟨n, rfl, h⟩

theorem counts_bind {p : Program Call Answer α} {f : α → Program Call Answer β}
    (hp : p.Counts rely counted m) (hf : ∀ a, (f a).Counts rely counted n) :
    (p >>= f).Counts rely counted (m + n) := by
  induction p generalizing m with
  | done a =>
      obtain rfl : m = 0 := hp
      rw [Nat.zero_add]
      exact hf a
  | call c next ih =>
      obtain ⟨k, rfl, hnext⟩ := hp
      rw [Nat.add_assoc]
      exact counts_call fun answer hanswer => ih answer (hnext answer hanswer)

end Counts

section Execute

variable {perform : ω → (c : Call) → Except ε (Answer c × ω)} {rely : ∀ c, Answer c → Prop}
  {guar : Call → Prop} {post : α → Prop}

@[simp] theorem execute_done (w : ω) (a : α) :
    execute perform w (done a : Program Call Answer α) = ⟨[], w, .ok a⟩ := rfl

theorem execute_call (w : ω) (c : Call) (next : Answer c → Program Call Answer α) :
    execute perform w (call c next) =
      match perform w c with
      | .error e => ⟨[], w, .error e⟩
      | .ok (answer, w') => (execute perform w' (next answer)).after [⟨c, answer⟩] := by
  rw [execute]

theorem execute_call_ok {w w' : ω} {c : Call} {answer : Answer c}
    (next : Answer c → Program Call Answer α) (h : perform w c = .ok (answer, w')) :
    execute perform w (call c next) =
      (execute perform w' (next answer)).after [⟨c, answer⟩] := by
  rw [execute, h]

theorem execute_call_error {w : ω} {c : Call} {e : ε} (next : Answer c → Program Call Answer α)
    (h : perform w c = .error e) : execute perform w (call c next) = ⟨[], w, .error e⟩ := by
  rw [execute, h]

/-- A program that comes to its end hands its result to what follows it. -/
theorem execute_bind_ok {p : Program Call Answer α} {f : α → Program Call Answer β} {w w' : ω}
    {events : List (Event Answer)} {a : α} (h : p.execute perform w = ⟨events, w', .ok a⟩) :
    (p >>= f).execute perform w = ((f a).execute perform w').after events := by
  induction p generalizing w events with
  | done b =>
      cases h
      rfl
  | call c next ih =>
      cases hc : perform w c with
      | error e => simp [execute_call_error next hc] at h
      | ok result =>
          obtain ⟨answer, w₁⟩ := result
          rw [execute_call_ok next hc] at h
          cases hrest : (next answer).execute perform w₁ with
          | mk events' world outcome =>
              rw [hrest] at h
              cases h
              rw [call_bind, execute_call_ok _ hc, ih answer hrest, Execution.after_after]

theorem Ensures.events {p : Program Call Answer α} {w : ω} (h : p.Ensures rely guar post)
    (hrely : ∀ e ∈ (p.execute perform w).events, rely e.1 e.2) :
    ∀ e ∈ (p.execute perform w).events, guar e.1 := by
  induction p generalizing w with
  | done a => simp
  | call c next ih =>
      cases hc : perform w c with
      | error e => simp [execute_call_error next hc]
      | ok result =>
          obtain ⟨answer, w'⟩ := result
          simp only [execute_call_ok next hc, Execution.after_events, List.singleton_append,
            List.forall_mem_cons] at hrely ⊢
          exact ⟨h.1, ih answer (h.2 answer hrely.1) hrely.2⟩

/-- What is counted along the tree is what an execution does that comes to
its end. -/
theorem Counts.events {counted : Call → Bool} {n : ℕ} {p : Program Call Answer α} {w : ω}
    (h : p.Counts rely counted n)
    (hrely : ∀ w c answer w', perform w c = .ok (answer, w') → rely c answer)
    (hend : (p.execute perform w).error? = none) :
    (p.execute perform w).events.countP (fun e => counted e.1) = n := by
  induction p generalizing w n with
  | done a =>
      obtain rfl : n = 0 := h
      rfl
  | call c next ih =>
      obtain ⟨m, rfl, hnext⟩ := h
      cases hc : perform w c with
      | error e => simp [execute_call_error next hc] at hend
      | ok result =>
          obtain ⟨answer, w'⟩ := result
          rw [execute_call_ok next hc] at hend ⊢
          have hrest := ih answer (hnext answer (hrely w c answer w' hc)) hend
          rw [Execution.after_events, List.singleton_append, List.countP_cons, hrest]
          cases counted c <;> simp [Nat.add_comm]

/-- An invariant of the world from which the answers that the program
relies on follow, and which the guaranteed calls keep. -/
theorem Ensures.invariant {I : ω → Prop} {p : Program Call Answer α} {w : ω}
    (h : p.Ensures rely guar post)
    (hstep : ∀ w c answer w', I w → guar c → perform w c = .ok (answer, w') →
      rely c answer ∧ I w') (hI : I w) :
    (∀ e ∈ (p.execute perform w).events, guar e.1) ∧ I (p.execute perform w).world := by
  induction p generalizing w with
  | done a => simpa using hI
  | call c next ih =>
      cases hc : perform w c with
      | error e => simpa [execute_call_error next hc] using hI
      | ok result =>
          obtain ⟨answer, w'⟩ := result
          obtain ⟨hanswer, hI'⟩ := hstep w c answer w' hI h.1 hc
          obtain ⟨hevents, hworld⟩ := ih answer (h.2 answer hanswer) hI'
          simp only [execute_call_ok next hc, Execution.after_events, List.singleton_append,
            List.forall_mem_cons]
          exact ⟨⟨h.1, hevents⟩, hworld⟩

end Execute

end Program

end MockServices.Foundations
