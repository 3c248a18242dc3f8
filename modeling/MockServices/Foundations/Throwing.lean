import Mathlib.Init

/-!
# Calls that may throw

A call changes a state and returns or throws; what it has changed before it
throws stays changed. `Meets` says of a call what holds of the state where
it returns and what holds where it throws, and is built up along the call.
-/

namespace MockServices.Foundations

variable {ε σ α β : Type}

def require (ok : Bool) (e : ε) : EStateM ε σ Unit := if ok then pure () else throw e

/-- The call has returned with `post`, or thrown with `escape`. -/
def Ends (post : α → σ → Prop) (escape : ε → σ → Prop) : EStateM.Result ε σ α → Prop
  | .ok a t => post a t
  | .error e t => escape e t

/-- From a state with `pre` the call returns with `post` or throws with `escape`. -/
def Meets (pre : σ → Prop) (call : EStateM ε σ α) (post : α → σ → Prop) (escape : ε → σ → Prop) :
    Prop :=
  ∀ s, pre s → Ends post escape (call s)

namespace Meets

variable {pre : σ → Prop} {post : α → σ → Prop} {escape : ε → σ → Prop} {call : EStateM ε σ α}

theorem ok {s t : σ} {a : α} (h : Meets pre call post escape) (hs : pre s)
    (hcall : call s = .ok a t) : post a t := by
  have ht := h s hs
  rwa [hcall] at ht

theorem error {s t : σ} {e : ε} (h : Meets pre call post escape) (hs : pre s)
    (hcall : call s = .error e t) : escape e t := by
  have ht := h s hs
  rwa [hcall] at ht

theorem bind {mid : α → σ → Prop} {next : α → EStateM ε σ β} {post : β → σ → Prop}
    (hcall : Meets pre call mid escape) (hnext : ∀ a, Meets (mid a) (next a) post escape) :
    Meets pre (call >>= next) post escape := by
  intro s hs
  have hmid := hcall s hs
  change Ends post escape (EStateM.bind call next s)
  rw [EStateM.bind]
  cases hres : call s with
  | ok a t => exact hnext a t (by rwa [hres] at hmid)
  | error e t => rwa [hres] at hmid

/-- A change of the state, and the rest of the call from there. -/
theorem modify_bind {f : σ → σ} (mid : σ → Prop) {next : EStateM ε σ β} {post : β → σ → Prop}
    (h : ∀ s, pre s → mid (f s)) (hnext : Meets mid next post escape) :
    Meets pre ((modify f : EStateM ε σ PUnit) >>= fun _ => next) post escape := by
  have hmodify : Meets pre (modify f : EStateM ε σ PUnit) (fun _ => mid) escape := h
  exact bind hmodify fun _ => hnext

theorem pure {a : α} (h : ∀ s, pre s → post a s) : Meets pre (pure a) post escape := h

theorem throw {e : ε} (h : ∀ s, pre s → escape e s) :
    Meets pre (throw e : EStateM ε σ α) post escape := h

/-- Either what is required holds from then on, or the call is over. -/
theorem require (ok : Bool) (e : ε) :
    Meets pre (require ok e) (fun _ s => ok = true ∧ pre s)
      (fun e' s => ok = false ∧ e' = e ∧ pre s) := by
  cases ok with
  | true => exact pure fun s hs => ⟨rfl, hs⟩
  | false => exact throw fun s hs => ⟨rfl, rfl, hs⟩

theorem modify {f : σ → σ} {post : PUnit → σ → Prop} (h : ∀ s, pre s → post ⟨⟩ (f s)) :
    Meets pre (modify f : EStateM ε σ PUnit) post escape := h

/-- What does not depend on the state is known from then on. -/
theorem given {fact : Prop} (h : fact → Meets pre call post escape) :
    Meets (fun s => fact ∧ pre s) call post escape := fun s hs => h hs.1 s hs.2

theorem mono {pre' : σ → Prop} {post' : α → σ → Prop} {escape' : ε → σ → Prop}
    (h : Meets pre call post escape) (hpre : ∀ s, pre' s → pre s)
    (hpost : ∀ a s, post a s → post' a s) (hescape : ∀ e s, escape e s → escape' e s) :
    Meets pre' call post' escape' := by
  intro s hs
  have ht := h s (hpre s hs)
  cases hres : call s with
  | ok a t => exact hpost a t (by rwa [hres] at ht)
  | error e t => exact hescape e t (by rwa [hres] at ht)

end Meets

end MockServices.Foundations
