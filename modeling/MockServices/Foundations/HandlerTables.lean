import Mathlib.Data.List.Induction
import Mathlib.Logic.Function.Basic

/-!
# Tables filled by registrations

Values are registered under keys, one after the other. A routing table is
searched from its front, so the first registration for a key answers it. A
map forgets what it held, so there the latest registration does.
-/

namespace MockServices.Foundations

variable {ρ τ κ α : Type*}

section Registrations

variable [DecidableEq κ] (key : ρ → κ) (k : κ)

def firstFor (registered : List ρ) : Option ρ := registered.find? fun r => key r = k

def latestFor (registered : List ρ) : Option ρ := registered.findRev? fun r => key r = k

@[simp] theorem firstFor_nil : firstFor key k ([] : List ρ) = none := rfl

@[simp] theorem latestFor_nil : latestFor key k ([] : List ρ) = none := rfl

theorem firstFor_append (registered : List ρ) (r : ρ) : firstFor key k (registered ++ [r]) =
    (firstFor key k registered).or (if key r = k then some r else none) := by
  rw [firstFor, List.find?_append]
  by_cases hkey : key r = k <;> simp [firstFor, hkey]

theorem latestFor_append (registered : List ρ) (r : ρ) : latestFor key k (registered ++ [r]) =
    if key r = k then some r else latestFor key k registered := by
  simp only [latestFor, List.findRev?_eq_find?_reverse, List.reverse_append,
    List.reverse_singleton, List.singleton_append]
  by_cases hkey : key r = k <;> simp [hkey]

variable {key k}

theorem firstFor_some_iff {registered : List ρ} {r : ρ} : firstFor key k registered = some r ↔
    key r = k ∧ ∃ before after, registered = before ++ r :: after ∧ ∀ e ∈ before, key e ≠ k := by
  simp [firstFor, List.find?_eq_some_iff_append]

theorem firstFor_none_iff {registered : List ρ} :
    firstFor key k registered = none ↔ ∀ r ∈ registered, key r ≠ k := by
  simp [firstFor]

theorem mem_of_latestFor {registered : List ρ} {r : ρ} (h : latestFor key k registered = some r) :
    r ∈ registered := by
  rw [latestFor, List.findRev?_eq_find?_reverse] at h
  simpa using List.mem_of_find?_eq_some h

/-- A registration under another key does not count. -/
theorem latestFor_insert (front back : List ρ) {other : ρ} (hother : key other ≠ k) :
    latestFor key k (front ++ other :: back) = latestFor key k (front ++ back) := by
  simp [latestFor, List.findRev?_eq_find?_reverse, List.find?_append, hother]

end Registrations

/-- One list of entries for each registration call. -/
abbrev HandlerTables (τ κ α : Type*) := τ → List (κ × α)

namespace HandlerTables

variable [DecidableEq κ]

def empty : HandlerTables τ κ α := fun _ => []

def lookup (tables : HandlerTables τ κ α) (table : τ) (key : κ) : Option α :=
  (tables table).lookup key

@[simp] theorem lookup_empty (table : τ) (key : κ) :
    (empty : HandlerTables τ κ α).lookup table key = none := rfl

variable [DecidableEq τ]

def register (tables : HandlerTables τ κ α) (table : τ) (key : κ) (handler : α) :
    HandlerTables τ κ α :=
  Function.update tables table (tables table ++ [(key, handler)])

theorem lookup_register (tables : HandlerTables τ κ α) (table other : τ) (key k : κ)
    (handler : α) : (tables.register table key handler).lookup other k =
      (tables.lookup other k).or (if (table, key) = (other, k) then some handler else none) := by
  by_cases htable : table = other
  · subst htable
    by_cases hkey : key = k
    · simp [register, lookup, List.lookup_append, hkey]
    · have hne : (k == key) = false := beq_false_of_ne fun h => hkey h.symm
      simp [register, lookup, List.lookup_append, List.lookup_cons, hkey, hne]
  · have hne : other ≠ table := fun h => htable h.symm
    simp [register, lookup, htable, Function.update_of_ne hne]

/-- After a sequence of registrations the first one for a table and a key
answers there. -/
theorem lookup_registered (table : ρ → τ) (key : ρ → κ) (handler : ρ → α) (registered : List ρ)
    (t : τ) (k : κ) :
    (registered.foldl (fun tables r => tables.register (table r) (key r) (handler r))
      (empty : HandlerTables τ κ α)).lookup t k =
    (firstFor (fun r => (table r, key r)) (t, k) registered).map handler := by
  induction registered using List.reverseRecOn with
  | nil => rfl
  | append_singleton registered r ih =>
      rw [List.foldl_append, firstFor_append, List.foldl_cons, List.foldl_nil, lookup_register, ih]
      cases firstFor (fun r => (table r, key r)) (t, k) registered with
      | some first => rfl
      | none => by_cases h : (table r, key r) = (t, k) <;> simp [h]

end HandlerTables

end MockServices.Foundations
