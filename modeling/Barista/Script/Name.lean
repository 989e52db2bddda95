import Barista.Core.Entity

/-!
# Names in a script

Every entity gets a name of its own in the script, once.  A name that JavaScript reserves is marked,
and a name that another entity has is numbered from two on.
-/

namespace Barista
namespace Script

open Barista.Core (Entity Entities)

def reserved : List String := [
  "arguments", "await", "break", "case", "catch", "class", "const", "continue", "debugger",
  "default", "delete", "do", "else", "enum", "eval", "export", "extends", "false", "finally",
  "for", "function", "if", "implements", "import", "in", "instanceof", "interface", "let",
  "new", "null", "package", "private", "protected", "public", "return", "static", "super",
  "switch", "this", "throw", "true", "try", "typeof", "undefined", "var", "void", "while",
  "with", "yield", "console", "NaN", "Infinity"]

def safeName (name : String) : String :=
  if name ∈ reserved then name ++ "_" else name

def numbered (base : String) (k : Nat) : String :=
  base ++ "_" ++ toString k

/-- The first numbered form of `base` from `k` on that is not used.  A form that is used is taken
off the list, so the search ends.  The number is exact here, and an `i32` in the generator itself,
so the two differ from 2^31 suffixes on. -/
def firstFree (base : String) (used : List String) (k : Nat) : String :=
  if _h : numbered base k ∈ used then
    firstFree base (used.erase (numbered base k)) (k + 1)
  else numbered base k
termination_by used.length
decreasing_by
  rw [List.length_erase_of_mem _h]
  exact Nat.sub_lt (List.length_pos_of_mem _h) Nat.one_pos

def freshName (used : List String) (name : String) : String :=
  let base := safeName name
  if base ∈ used then firstFree base used 2 else base

/-- The names given so far, the latest first. -/
structure Names where
  given : List (Entity × String)
deriving DecidableEq, Repr

namespace Names

def empty : Names := ⟨[]⟩

def used (names : Names) : List String :=
  names.given.map Prod.snd

def name? (names : Names) (entity : Entity) : Option String :=
  names.given.lookup entity

/-- The name of an entity, which is given to it now if it has none. -/
def declare (names : Names) (entities : Entities) (entity : Entity) : String × Names :=
  match names.name? entity with
  | some name => (name, names)
  | none =>
    let name := freshName names.used (entities.nameOf entity)
    (name, ⟨(entity, name) :: names.given⟩)

def declareAll (names : Names) (entities : Entities) : List Entity → List String × Names
  | [] => ([], names)
  | entity :: rest =>
    let (name, names) := names.declare entities entity
    let (others, names) := names.declareAll entities rest
    (name :: others, names)

/-- How a reference to an entity is written; without a given name it keeps that of the program. -/
def refer (names : Names) (entities : Entities) (entity : Entity) : String :=
  match names.name? entity with
  | some name => name
  | none => safeName (entities.nameOf entity)

theorem name?_declare_self (names : Names) (entities : Entities) (entity : Entity) :
    (names.declare entities entity).2.name? entity =
      some (names.declare entities entity).1 := by
  cases h : names.name? entity with
  | some name => simp [declare, h]
  | none =>
    simp only [declare, h]
    simp [name?]

end Names
end Script
end Barista
