import Barista.Optimize.Expression

/-!
# Optimizing statements

A statement becomes any number of statements: none when it can have no effect, several when a
conditional is settled and its branch takes its place.
-/

namespace Barista
namespace Optimize

open Barista.Core (Expr VarId Stmt Chain Program)

/-- `x = x` does nothing. -/
def assign (target : VarId) (op : AssignOp) (value : Expr) : List Stmt :=
  match op, value with
  | .set, .var id => if id = target then [] else [.assign target .set (.var id)]
  | op, value => [.assign target op value]

def loop (test : Expr) (body : List Stmt) : List Stmt :=
  match test with
  | .bool false => []
  | test => [.loop test body]

def each (iterator : VarId) (collection : Expr) (body : List Stmt) : List Stmt :=
  match collection with
  | .array [] _ => []
  | collection => [.each iterator collection body]

/-- A branch in front of others: one that is always taken ends the chain, one that never is taken is
left out. -/
def branch (test : Expr) (body : List Stmt) (rest : Chain) : Chain :=
  match test with
  | .bool true => .otherwise body
  | .bool false => rest
  | test => .also test body rest

/-- A whole conditional, given by all its branches. -/
def cond : Chain → List Stmt
  | .finish => []
  | .otherwise body => body
  | .also test body rest => [.cond test body rest]

mutual

def stmt : Stmt → List Stmt
  | .declare target init => [.declare target (expr init)]
  | .assign target op value => assign target op (expr value)
  | .print argument => [.print (expr argument)]
  | .cond test body rest => cond (branch (expr test) (block body) (chain rest))
  | .loop test body => loop (expr test) (block body)
  | .each iterator collection body => each iterator (expr collection) (block body)
  | .ret value => [.ret (value.map expr)]
  | .function id body => [.function id (block body)]
  | .call callee args type => [.call callee (exprs args) type]

def block : List Stmt → List Stmt
  | [] => []
  | s :: rest => stmt s ++ block rest

def chain : Chain → Chain
  | .finish => .finish
  | .otherwise body => .otherwise (block body)
  | .also test body rest => branch (expr test) (block body) (chain rest)

end

def program (p : Program) : Program :=
  { p with statements := block p.statements }

theorem block_eq_flatMap (body : List Stmt) : block body = body.flatMap stmt := by
  induction body with
  | nil => rw [block]; rfl
  | cons s rest ih => rw [block, ih]; rfl

theorem block_append (a b : List Stmt) : block (a ++ b) = block a ++ block b := by
  simp [block_eq_flatMap]

end Optimize
end Barista
