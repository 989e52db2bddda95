import Barista.Ty

/-!
# Entities

The variables and functions that a program declares, each in a table.  An entity is known by its
index there, so that two declarations of one name stay apart.
-/

namespace Barista
namespace Core

structure VarId where
  index : Nat
deriving DecidableEq, Repr

structure FunId where
  index : Nat
deriving DecidableEq, Repr

inductive Entity
  | variable (id : VarId)
  | function (id : FunId)
deriving DecidableEq, Repr

/-- Parameters and the variables of `for` loops are read only. -/
structure Variable where
  name : String
  type : Ty
  readOnly : Bool
deriving DecidableEq, Repr

structure Function where
  name : String
  result : Ty
  params : List VarId
deriving DecidableEq, Repr

def Function.arity (f : Function) : Nat :=
  f.params.length

structure Entities where
  vars : List Variable
  funs : List Function
deriving DecidableEq, Repr

namespace Entities

def empty : Entities := ⟨[], []⟩

def addVariable (e : Entities) (v : Variable) : Entities :=
  { e with vars := e.vars ++ [v] }

def addFunction (e : Entities) (f : Function) : Entities :=
  { e with funs := e.funs ++ [f] }

/-- The index that the next variable gets. -/
def nextVariable (e : Entities) : VarId := ⟨e.vars.length⟩

def nextFunction (e : Entities) : FunId := ⟨e.funs.length⟩

def findVariable? (e : Entities) (id : VarId) : Option Variable :=
  e.vars[id.index]?

def findFunction? (e : Entities) (id : FunId) : Option Function :=
  e.funs[id.index]?

/-- The type of a variable; an index without a variable has type `void`. -/
def typeOf (e : Entities) (id : VarId) : Ty :=
  match e.findVariable? id with
  | some v => v.type
  | none => .void

def paramsOf (e : Entities) (id : FunId) : List VarId :=
  match e.findFunction? id with
  | some f => f.params
  | none => []

def resultOf (e : Entities) (id : FunId) : Ty :=
  match e.findFunction? id with
  | some f => f.result
  | none => .void

def nameOf (e : Entities) : Entity → String
  | .variable id => ((e.findVariable? id).map (·.name)).getD ""
  | .function id => ((e.findFunction? id).map (·.name)).getD ""

@[simp] theorem findVariable?_addVariable_next (e : Entities) (v : Variable) :
    (e.addVariable v).findVariable? e.nextVariable = some v := by
  simp [findVariable?, addVariable, nextVariable]

@[simp] theorem findFunction?_addFunction_next (e : Entities) (f : Function) :
    (e.addFunction f).findFunction? e.nextFunction = some f := by
  simp [findFunction?, addFunction, nextFunction]

end Entities
end Core
end Barista
