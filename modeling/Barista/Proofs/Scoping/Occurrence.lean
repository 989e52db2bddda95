import Barista.Proofs.Scoping.Trail
import Barista.Surface.Tree
import Barista.Core.Declared

/-!
# The trails of programs

Where a program declares and mentions things, before and after analysis.  Bodies of functions and
loops open a scope, branches of a conditional do not.  A declaration is marked where it takes
effect: that of a variable behind its initial value, that of an iterator in front of the body, that
of a function in front of its own parameters.
-/

namespace Barista

open Scoping Scoping.Trail

namespace Surface

mutual

/-- The identifiers that an expression mentions, from left to right. -/
def Expr.names : Expr → List Name
  | .int _ _ | .double _ _ | .bool _ _ | .string _ _ => []
  | .ident name span => [⟨name, span⟩]
  | .binary _ l r _ => l.names ++ r.names
  | .unary _ e _ => e.names
  | .ternary c y n _ => c.names ++ y.names ++ n.names
  | .call callee args _ _ => callee :: Expr.allNames args
  | .index a i _ => a.names ++ i.names
  | .array items _ => Expr.allNames items

def Expr.allNames : List Expr → List Name
  | [] => []
  | e :: es => e.names ++ Expr.allNames es

end

mutual

def Stmt.trail : Stmt → Trail Name
  | .declare _ name init => init.names.map .use ++ [.bind name]
  | .function name params _ body =>
    .bind name :: nested ((params.map Param.name).map .bind ++ Stmt.allTrail body)
  | .assign target _ _ value => .use target :: value.names.map .use
  | .print argument _ => argument.names.map .use
  | .cond test body rest _ => test.names.map .use ++ Stmt.allTrail body ++ rest.trail
  | .loop test body _ => test.names.map .use ++ nested (Stmt.allTrail body)
  | .each iterator collection body _ =>
    collection.names.map .use ++ nested (.bind iterator :: Stmt.allTrail body)
  | .ret value _ => (value.elim [] Expr.names).map .use
  | .call callee args _ => .use callee :: (Expr.allNames args).map .use

def Stmt.allTrail : List Stmt → Trail Name
  | [] => []
  | s :: rest => s.trail ++ Stmt.allTrail rest

def Chain.trail : Chain → Trail Name
  | .finish => []
  | .otherwise body => Stmt.allTrail body
  | .also test body rest => test.names.map .use ++ Stmt.allTrail body ++ rest.trail

end

end Surface

namespace Core

mutual

/-- The entities that an expression mentions, from left to right. -/
def Expr.refs : Expr → List Entity
  | .int _ | .double _ | .bool _ | .string _ => []
  | .var id => [.variable id]
  | .binary _ l r _ => l.refs ++ r.refs
  | .unary _ e _ => e.refs
  | .ternary c y n _ => c.refs ++ y.refs ++ n.refs
  | .call callee args _ => .function callee :: Expr.allRefs args
  | .index a i _ => a.refs ++ i.refs
  | .array items _ => Expr.allRefs items

def Expr.allRefs : List Expr → List Entity
  | [] => []
  | e :: es => e.refs ++ Expr.allRefs es

end

mutual

def Stmt.trail (entities : Entities) : Stmt → Trail Entity
  | .declare id init => init.refs.map .use ++ [.bind (.variable id)]
  | .function id body =>
    .bind (.function id) ::
      nested (((entities.paramsOf id).map .variable).map .bind ++ Stmt.allTrail entities body)
  | .assign id _ value => .use (.variable id) :: value.refs.map .use
  | .print argument => argument.refs.map .use
  | .cond test body rest =>
    test.refs.map .use ++ Stmt.allTrail entities body ++ rest.trail entities
  | .loop test body => test.refs.map .use ++ nested (Stmt.allTrail entities body)
  | .each iterator collection body =>
    collection.refs.map .use ++
      nested (.bind (.variable iterator) :: Stmt.allTrail entities body)
  | .ret value => (value.elim [] Expr.refs).map .use
  | .call callee args _ => .use (.function callee) :: (Expr.allRefs args).map .use

def Stmt.allTrail (entities : Entities) : List Stmt → Trail Entity
  | [] => []
  | s :: rest => s.trail entities ++ Stmt.allTrail entities rest

def Chain.trail (entities : Entities) : Chain → Trail Entity
  | .finish => []
  | .otherwise body => Stmt.allTrail entities body
  | .also test body rest =>
    test.refs.map .use ++ Stmt.allTrail entities body ++ rest.trail entities

end

theorem Stmt.allTrail_append (entities : Entities) (a b : List Stmt) :
    Stmt.allTrail entities (a ++ b) = Stmt.allTrail entities a ++ Stmt.allTrail entities b := by
  induction a with
  | nil => rfl
  | cons s rest ih => rw [List.cons_append, Stmt.allTrail, Stmt.allTrail, ih, List.append_assoc]

theorem Stmt.allTrail_singleton (entities : Entities) (s : Stmt) :
    Stmt.allTrail entities [s] = s.trail entities := by
  simp [Stmt.allTrail]

def Program.trail (p : Program) : Trail Entity :=
  Stmt.allTrail p.entities p.statements

mutual

/-- A tree declares its entities in the order of its trail. -/
theorem Stmt.bound_trail (entities : Entities) :
    ∀ s : Stmt, bound (s.trail entities) = s.declared entities
  | .declare id init => by simp [Stmt.trail, Stmt.declared]
  | .function id body => by
      rw [Stmt.trail, Stmt.declared, bound_cons_bind, bound_nested, bound_append, bound_map_bind,
        Stmt.bound_allTrail entities body, List.cons_append]
  | .assign id op value => by simp [Stmt.trail, Stmt.declared]
  | .print argument => by simp [Stmt.trail, Stmt.declared]
  | .cond test body rest => by
      have hbody := Stmt.bound_allTrail entities body
      have hrest := Chain.bound_trail entities rest
      simp [Stmt.trail, Stmt.declared, hbody, hrest]
  | .loop test body => by
      have hbody := Stmt.bound_allTrail entities body
      simp [Stmt.trail, Stmt.declared, hbody]
  | .each iterator collection body => by
      have hbody := Stmt.bound_allTrail entities body
      simp [Stmt.trail, Stmt.declared, hbody]
  | .ret value => by simp [Stmt.trail, Stmt.declared]
  | .call callee args type => by simp [Stmt.trail, Stmt.declared]

theorem Stmt.bound_allTrail (entities : Entities) :
    ∀ b : List Stmt, bound (Stmt.allTrail entities b) = Stmt.allDeclared entities b
  | [] => rfl
  | s :: rest => by
      have hfirst := Stmt.bound_trail entities s
      have hrest := Stmt.bound_allTrail entities rest
      simp [Stmt.allTrail, Stmt.allDeclared, hfirst, hrest]

theorem Chain.bound_trail (entities : Entities) :
    ∀ c : Chain, bound (c.trail entities) = c.declared entities
  | .finish => rfl
  | .otherwise body => Stmt.bound_allTrail entities body
  | .also test body rest => by
      have hbody := Stmt.bound_allTrail entities body
      have hrest := Chain.bound_trail entities rest
      simp [Chain.trail, Chain.declared, hbody, hrest]

end

theorem Program.bound_trail (p : Program) : bound p.trail = p.declared :=
  Stmt.bound_allTrail p.entities p.statements

/-- Every entity that stands in the program, declared or mentioned, from left to right. -/
def Program.occurrences (p : Program) : List Entity :=
  contents p.trail

end Core
end Barista
