import Barista.Core.Tree

/-!
# Declared entities

The entities that statements declare, in the order of the program: variables, iterators, functions
and, behind each function, its parameters.
-/

namespace Barista
namespace Core

mutual

def Stmt.declared (entities : Entities) : Stmt → List Entity
  | .declare id _ => [.variable id]
  | .cond _ body rest => Stmt.allDeclared entities body ++ rest.declared entities
  | .loop _ body => Stmt.allDeclared entities body
  | .each iterator _ body => .variable iterator :: Stmt.allDeclared entities body
  | .function id body =>
    .function id :: (entities.paramsOf id).map .variable ++ Stmt.allDeclared entities body
  | .assign _ _ _ | .print _ | .ret _ | .call _ _ _ => []

def Stmt.allDeclared (entities : Entities) : List Stmt → List Entity
  | [] => []
  | s :: rest => s.declared entities ++ Stmt.allDeclared entities rest

def Chain.declared (entities : Entities) : Chain → List Entity
  | .finish => []
  | .otherwise body => Stmt.allDeclared entities body
  | .also _ body rest => Stmt.allDeclared entities body ++ rest.declared entities

end

namespace Program

def declared (p : Program) : List Entity :=
  Stmt.allDeclared p.entities p.statements

/-- The declared variables in the order of their indices. -/
def declaredVariables (p : Program) : List (VarId × Variable) :=
  p.entities.vars.zipIdx.filterMap fun (v, index) ↦
    if .variable ⟨index⟩ ∈ p.declared then some (⟨index⟩, v) else none

/-- The declared functions in the order of their indices. -/
def declaredFunctions (p : Program) : List (FunId × Function) :=
  p.entities.funs.zipIdx.filterMap fun (f, index) ↦
    if .function ⟨index⟩ ∈ p.declared then some (⟨index⟩, f) else none

end Program
end Core
end Barista
