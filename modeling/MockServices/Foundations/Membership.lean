import Mathlib.Data.Set.Basic
import Mathlib.Logic.Function.Basic

/-!
# Who belongs to a publish-subscribe service

What the service is for, without sockets or threads: a connection joins
under a client name, adds filters while it is a member and leaves. A topic
has an audience, the members one of whose filters covers it.
-/

namespace MockServices.Foundations

structure Membership (Client Conn Filter : Type*) where
  /-- The connection that joined last under a name. -/
  latest : Client → Option Conn
  /-- The filter lists a member has added since it joined. -/
  accepted : Conn → Option (List (List Filter))

namespace Membership

variable {Client Conn Filter Topic : Type*}

def empty : Membership Client Conn Filter := ⟨fun _ => none, fun _ => none⟩

def audience (m : Membership Client Conn Filter) (covers : Filter → Topic → Prop)
    (topic : Topic) : Set Conn :=
  {conn | ∃ lists, m.accepted conn = some lists ∧
    ∃ filters ∈ lists, ∃ filter ∈ filters, covers filter topic}

theorem mem_audience {m : Membership Client Conn Filter} {covers : Filter → Topic → Prop}
    {topic : Topic} {conn : Conn} {lists : List (List Filter)}
    (h : m.accepted conn = some lists) :
    conn ∈ m.audience covers topic ↔ ∃ filter ∈ lists.flatten, covers filter topic := by
  constructor
  · rintro ⟨others, hothers, filters, hfilters, filter, hfilter, hcovers⟩
    obtain rfl : lists = others := Option.some.inj (h.symm.trans hothers)
    exact ⟨filter, List.mem_flatten.mpr ⟨filters, hfilters, hfilter⟩, hcovers⟩
  · rintro ⟨filter, hfilter, hcovers⟩
    obtain ⟨filters, hfilters, hfilter⟩ := List.mem_flatten.mp hfilter
    exact ⟨lists, h, filters, hfilters, filter, hfilter, hcovers⟩

def clear (m : Membership Client Conn Filter) : Membership Client Conn Filter :=
  { m with accepted := fun _ => none }

variable [DecidableEq Conn]

def join [DecidableEq Client] (m : Membership Client Conn Filter) (client : Client) (conn : Conn) :
    Membership Client Conn Filter where
  latest := Function.update m.latest client (some conn)
  accepted := Function.update m.accepted conn (some [])

def subscribe (m : Membership Client Conn Filter) (conn : Conn) (filters : List Filter) :
    Membership Client Conn Filter :=
  { m with
    accepted := Function.update m.accepted conn ((m.accepted conn).map (· ++ [filters])) }

def leave (m : Membership Client Conn Filter) (conn : Conn) : Membership Client Conn Filter :=
  { m with accepted := Function.update m.accepted conn none }

section Fields

variable (m : Membership Client Conn Filter) (conn member : Conn) (filters : List Filter)

theorem join_latest [DecidableEq Client] (client other : Client) :
    (m.join client conn).latest other = if other = client then some conn else m.latest other :=
  Function.update_apply ..

theorem join_accepted [DecidableEq Client] (client : Client) :
    (m.join client conn).accepted member =
    if member = conn then some [] else m.accepted member := Function.update_apply ..

theorem subscribe_accepted : (m.subscribe conn filters).accepted member =
    if member = conn then (m.accepted conn).map (· ++ [filters]) else m.accepted member :=
  Function.update_apply ..

theorem subscribe_accepted_none_iff :
    (m.subscribe conn filters).accepted member = none ↔ m.accepted member = none := by
  rw [subscribe_accepted]
  split
  · next h => rw [h, Option.map_eq_none_iff]
  · exact Iff.rfl

@[simp] theorem leave_latest : (m.leave conn).latest = m.latest := rfl

theorem leave_accepted :
    (m.leave conn).accepted member = if member = conn then none else m.accepted member :=
  Function.update_apply ..

end Fields

end Membership

end MockServices.Foundations
