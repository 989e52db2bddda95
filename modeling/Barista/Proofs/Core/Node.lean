import Barista.Proofs.Scoping.Occurrence

/-!
# The nodes of a tree

A tree read from left to right as the list of its nodes, each with the part that it plays and the
entity that it names.
-/

namespace Barista
namespace Core

/-- A statement or an expression without its operands.  Literals, operators and control flow name
nothing and do nothing on their own. -/
inductive Node
  | plain
  | print
  | declare (entity : Entity)
  | assign (id : VarId)
  | refer (id : VarId)
  | call (id : FunId)
deriving DecidableEq, Repr

namespace Node

def entity? : Node → Option Entity
  | plain | print => none
  | declare entity => some entity
  | assign id | refer id => some (.variable id)
  | call id => some (.function id)

/-- Calls and prints can be noticed from outside. -/
def acts : Node → Bool
  | print | call _ => true
  | _ => false

end Node

mutual

def Expr.nodes : Expr → List Node
  | .int _ | .double _ | .bool _ | .string _ => [.plain]
  | .var id => [.refer id]
  | .binary _ l r _ => .plain :: (l.nodes ++ r.nodes)
  | .unary _ e _ => .plain :: e.nodes
  | .ternary c y n _ => .plain :: (c.nodes ++ y.nodes ++ n.nodes)
  | .call callee args _ => .call callee :: Expr.allNodes args
  | .index a i _ => .plain :: (a.nodes ++ i.nodes)
  | .array items _ => .plain :: Expr.allNodes items

def Expr.allNodes : List Expr → List Node
  | [] => []
  | e :: es => e.nodes ++ Expr.allNodes es

end

mutual

/-- A conditional is one node, however many branches it has. -/
def Stmt.nodes : Stmt → List Node
  | .declare id init => .declare (.variable id) :: init.nodes
  | .function id body => .declare (.function id) :: Stmt.allNodes body
  | .assign id _ value => .assign id :: value.nodes
  | .print argument => .print :: argument.nodes
  | .cond test body rest => .plain :: (test.nodes ++ Stmt.allNodes body ++ rest.nodes)
  | .loop test body => .plain :: (test.nodes ++ Stmt.allNodes body)
  | .each iterator collection body =>
    .declare (.variable iterator) :: (collection.nodes ++ Stmt.allNodes body)
  | .ret value => .plain :: value.elim [] Expr.nodes
  | .call callee args _ => .call callee :: Expr.allNodes args

def Stmt.allNodes : List Stmt → List Node
  | [] => []
  | s :: rest => s.nodes ++ Stmt.allNodes rest

def Chain.nodes : Chain → List Node
  | .finish => []
  | .otherwise body => Stmt.allNodes body
  | .also test body rest => test.nodes ++ Stmt.allNodes body ++ rest.nodes

end

theorem Stmt.allNodes_append (a b : List Stmt) :
    Stmt.allNodes (a ++ b) = Stmt.allNodes a ++ Stmt.allNodes b := by
  induction a with
  | nil => rfl
  | cons s rest ih => rw [List.cons_append, Stmt.allNodes, Stmt.allNodes, ih, List.append_assoc]

theorem Stmt.allNodes_singleton (s : Stmt) : Stmt.allNodes [s] = s.nodes := by
  simp [Stmt.allNodes]

namespace Program

def nodes (p : Program) : List Node :=
  Stmt.allNodes p.statements

/-- The nodes that name an entity: declared variables, iterators and functions, targets of
assignments, references and callees. -/
def namings (p : Program) : List Node :=
  p.nodes.filter (·.entity?.isSome)

/-- The calls and prints. -/
def actions (p : Program) : List Node :=
  p.nodes.filter Node.acts

end Program

/-! ## References -/

@[simp] theorem Node.filterMap_entity?_plain (ns : List Node) :
    (plain :: ns).filterMap entity? = ns.filterMap entity? := rfl

mutual

/-- An expression refers to the entities that its nodes name. -/
theorem Expr.filterMap_nodes : ∀ e : Expr, e.nodes.filterMap Node.entity? = e.refs
  | .int _ | .double _ | .bool _ | .string _ | .var _ => rfl
  | .binary _ l r _ => by
      simp [Expr.nodes, Expr.refs, Expr.filterMap_nodes l, Expr.filterMap_nodes r]
  | .unary _ e _ => by
      simp [Expr.nodes, Expr.refs, Expr.filterMap_nodes e]
  | .ternary c y n _ => by
      simp [Expr.nodes, Expr.refs, Expr.filterMap_nodes c, Expr.filterMap_nodes y,
        Expr.filterMap_nodes n]
  | .call callee args _ => by
      simp [Expr.nodes, Expr.refs, Node.entity?, Expr.filterMap_allNodes args]
  | .index a i _ => by
      simp [Expr.nodes, Expr.refs, Expr.filterMap_nodes a, Expr.filterMap_nodes i]
  | .array items _ => by
      simp [Expr.nodes, Expr.refs, Expr.filterMap_allNodes items]

theorem Expr.filterMap_allNodes : ∀ es : List Expr,
    (Expr.allNodes es).filterMap Node.entity? = Expr.allRefs es
  | [] => rfl
  | e :: es => by
      simp [Expr.allNodes, Expr.allRefs, Expr.filterMap_nodes e, Expr.filterMap_allNodes es]

end

end Core
end Barista
