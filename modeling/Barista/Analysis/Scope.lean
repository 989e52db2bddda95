import Barista.Core.Entity

/-!
# Scopes

The names that are visible at a place in a program: a stack of frames, the innermost first.  Bodies
of functions and loops open a frame; branches of a conditional do not.
-/

namespace Barista
namespace Analysis

open Barista.Core

abbrev Frame := List (String × Entity)

structure Scope where
  inner : Frame
  outer : List Frame
deriving DecidableEq, Repr

namespace Scope

def empty : Scope := ⟨[], []⟩

/-- The innermost declaration of a name. -/
def lookup? (s : Scope) (name : String) : Option Entity :=
  (s.inner :: s.outer).findSome? fun frame ↦ frame.lookup name

/-- The innermost frame declares the name. -/
def declares (s : Scope) (name : String) : Bool :=
  (s.inner.lookup name).isSome

def declare (s : Scope) (name : String) (entity : Entity) : Scope :=
  { s with inner := (name, entity) :: s.inner }

def enter (s : Scope) : Scope :=
  ⟨[], s.inner :: s.outer⟩

@[simp] theorem lookup?_declare_self (s : Scope) (name : String) (entity : Entity) :
    (s.declare name entity).lookup? name = some entity := by
  simp [lookup?, declare]

theorem lookup?_declare_of_ne (s : Scope) {name other : String} (entity : Entity)
    (h : other ≠ name) : (s.declare name entity).lookup? other = s.lookup? other := by
  have hne : (other == name) = false := by simpa using h
  simp [lookup?, declare, List.findSome?_cons, List.lookup_cons, hne]

@[simp] theorem lookup?_enter (s : Scope) (name : String) :
    s.enter.lookup? name = s.lookup? name := by
  simp [lookup?, enter, List.findSome?_cons]

end Scope
end Analysis
end Barista
