import Mathlib.Data.List.Perm.Basic
import Mathlib.Data.List.Range

/-!
# Objects that are handed out and taken back

A pool hands out objects that nobody has had and takes them back. It
accounts for what somebody holds when every object handed out is held or
has been taken back, and either only once.
-/

namespace MockServices.Foundations

structure Pool where
  /-- Objects are numbered as they are handed out. -/
  next : ℕ := 0
  freed : List ℕ := []

namespace Pool

variable {pool : Pool} {held held' : List ℕ} {object : ℕ}

def alloc (pool : Pool) : Pool := { pool with next := pool.next + 1 }

def free (pool : Pool) (object : ℕ) : Pool := { pool with freed := object :: pool.freed }

/-- All of the objects. -/
def freeAll (pool : Pool) (objects : List ℕ) : Pool := objects.foldl free pool

/-- Every object is held or freed, and only once. -/
def Accounts (pool : Pool) (held : List ℕ) : Prop :=
  (pool.freed ++ held).Perm (List.range pool.next)

theorem accounts_empty : ({} : Pool).Accounts [] := List.Perm.refl _

theorem Accounts.perm (h : pool.Accounts held) (hperm : held.Perm held') : pool.Accounts held' :=
  (hperm.append_left pool.freed).symm.trans h

theorem Accounts.alloc (h : pool.Accounts held) : pool.alloc.Accounts (pool.next :: held) := by
  change (pool.freed ++ pool.next :: held).Perm (List.range (pool.next + 1))
  rw [List.range_succ]
  exact List.perm_middle.trans ((h.cons pool.next).trans (List.perm_append_singleton _ _).symm)

theorem Accounts.free (h : pool.Accounts (object :: held)) : (pool.free object).Accounts held :=
  List.perm_middle.symm.trans h

theorem Accounts.freeAll {objects : List ℕ} (h : pool.Accounts (objects ++ held)) :
    (pool.freeAll objects).Accounts held := by
  induction objects generalizing pool with
  | nil => exact h
  | cons object objects ih => exact ih (Accounts.free h)

/-- Nothing is freed twice. -/
theorem Accounts.nodup_freed (h : pool.Accounts held) : pool.freed.Nodup :=
  (List.nodup_append.mp (h.nodup_iff.mpr List.nodup_range)).1

/-- What is held has not been freed. -/
theorem Accounts.notMem_freed (h : pool.Accounts held) (hobject : object ∈ held) :
    object ∉ pool.freed := by
  have hnodup : (pool.freed ++ held).Nodup := h.nodup_iff.mpr List.nodup_range
  exact fun hfreed => (List.nodup_append.mp hnodup).2.2 object hfreed object hobject rfl

end Pool

end MockServices.Foundations
