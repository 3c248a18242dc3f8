import Mathlib.Data.Set.Insert
import Mathlib.Logic.Function.Basic

/-!
# Who is present under which name

A service lists the names of its members. Each member holds one name, and
two members may hold the same. The list is exact when it is the set of
the names held. Entering adds a name and leaving takes one off the list;
what else has to be so for the list to stay exact is said here.
-/

namespace MockServices.Foundations

structure Presence (Conn Name : Type*) where
  holder : Conn → Option Name
  present : Set Name

namespace Presence

variable {Conn Name : Type*}

def Exact (p : Presence Conn Name) : Prop :=
  ∀ name, name ∈ p.present ↔ ∃ conn, p.holder conn = some name

/-- Nobody but `conn` holds the name. -/
def Alone (p : Presence Conn Name) (conn : Conn) (name : Name) : Prop :=
  ∀ other, other ≠ conn → p.holder other ≠ some name

/-- What `conn` holds now is `name`, or somebody else holds it too. -/
def Spares (p : Presence Conn Name) (conn : Conn) (name : Name) : Prop :=
  ∀ held, p.holder conn = some held → held = name ∨ ∃ other, other ≠ conn ∧
    p.holder other = some held

variable [DecidableEq Conn]

def enter (p : Presence Conn Name) (conn : Conn) (name : Name) : Presence Conn Name where
  holder := Function.update p.holder conn (some name)
  present := insert name p.present

/-- `conn` is gone, and `name` is taken off the list. -/
def leave (p : Presence Conn Name) (conn : Conn) (name : Name) : Presence Conn Name where
  holder := Function.update p.holder conn none
  present := p.present \ {name}

variable {p : Presence Conn Name} {conn other : Conn} {name held : Name}

theorem holder_enter : (p.enter conn name).holder other = some held ↔
    other = conn ∧ name = held ∨ other ≠ conn ∧ p.holder other = some held := by
  by_cases h : other = conn <;> simp [enter, h]

theorem holder_leave : (p.leave conn name).holder other = some held ↔
    other ≠ conn ∧ p.holder other = some held := by
  by_cases h : other = conn <;> simp [leave, h]

theorem exact_enter_iff (h : p.Exact) : (p.enter conn name).Exact ↔ p.Spares conn name := by
  constructor
  · intro hexact held hheld
    have hpresent : held ∈ (p.enter conn name).present :=
      Set.mem_insert_of_mem _ ((h held).mpr ⟨conn, hheld⟩)
    obtain ⟨other, hother⟩ := (hexact held).mp hpresent
    rcases holder_enter.mp hother with ⟨-, heq⟩ | hother
    · exact Or.inl heq.symm
    · exact Or.inr ⟨other, hother⟩
  · intro hspares held
    constructor
    · intro hpresent
      rcases Set.mem_insert_iff.mp hpresent with rfl | hpresent
      · exact ⟨conn, holder_enter.mpr (Or.inl ⟨rfl, rfl⟩)⟩
      · obtain ⟨other, hother⟩ := (h held).mp hpresent
        by_cases hconn : other = conn
        · subst hconn
          rcases hspares held hother with rfl | ⟨third, hthird⟩
          · exact ⟨other, holder_enter.mpr (Or.inl ⟨rfl, rfl⟩)⟩
          · exact ⟨third, holder_enter.mpr (Or.inr hthird)⟩
        · exact ⟨other, holder_enter.mpr (Or.inr ⟨hconn, hother⟩)⟩
    · rintro ⟨other, hother⟩
      rcases holder_enter.mp hother with ⟨-, rfl⟩ | ⟨-, hother⟩
      · exact Set.mem_insert _ _
      · exact Set.mem_insert_of_mem _ ((h held).mpr ⟨other, hother⟩)

theorem exact_leave_iff (h : p.Exact) :
    (p.leave conn name).Exact ↔ p.Alone conn name ∧ p.Spares conn name := by
  constructor
  · intro hexact
    refine ⟨fun other hne hother => ?_, fun held hheld => ?_⟩
    · have hpresent := (hexact name).mpr ⟨other, holder_leave.mpr ⟨hne, hother⟩⟩
      exact hpresent.2 rfl
    · by_cases hname : held = name
      · exact Or.inl hname
      · obtain ⟨other, hother⟩ := (hexact held).mp ⟨(h held).mpr ⟨conn, hheld⟩, hname⟩
        exact Or.inr ⟨other, holder_leave.mp hother⟩
  · rintro ⟨halone, hspares⟩ held
    constructor
    · rintro ⟨hpresent, hname⟩
      obtain ⟨other, hother⟩ := (h held).mp hpresent
      by_cases hconn : other = conn
      · subst hconn
        obtain ⟨third, hthird⟩ := (hspares held hother).resolve_left hname
        exact ⟨third, holder_leave.mpr hthird⟩
      · exact ⟨other, holder_leave.mpr ⟨hconn, hother⟩⟩
    · rintro ⟨other, hleft⟩
      obtain ⟨hne, hother⟩ := holder_leave.mp hleft
      refine ⟨(h held).mpr ⟨other, hother⟩, ?_⟩
      rintro rfl
      exact halone other hne hother

end Presence

end MockServices.Foundations
