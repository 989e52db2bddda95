import Barista.Core.Tree

/-!
# Scripts

A program in the statements of JavaScript, before its entities have names.  A branch of a
conditional opens a block there, although it opens no scope in the language: what branches declare
is declared in front of the outermost conditional and only assigned inside.
-/

namespace Barista
namespace Script

open Barista.Core (VarId FunId Entities Expr)

mutual

inductive Stmt
  | declare (id : VarId) (init : Expr)
  | hoist (ids : List VarId)
  | assign (id : VarId) (op : AssignOp) (value : Expr)
  | print (argument : Expr)
  | cond (test : Expr) (body : List Stmt) (rest : Chain)
  | loop (test : Expr) (body : List Stmt)
  | elements (iterator : VarId) (array : Expr) (body : List Stmt)
  | count (iterator : VarId) (limit : Expr) (body : List Stmt)
  | ret (value : Option Expr)
  | function (id : FunId) (params : List VarId) (body : List Stmt)
  | call (callee : FunId) (args : List Expr) (type : Ty)

inductive Chain
  | finish
  | otherwise (body : List Stmt)
  | also (test : Expr) (body : List Stmt) (rest : Chain)

end

mutual

/-- The variables declared by a statement in the block where it stands, branches included. -/
def branchDeclared : Core.Stmt → List VarId
  | .declare id _ => [id]
  | .cond _ body rest => blockDeclared body ++ chainDeclared rest
  | _ => []

def blockDeclared : List Core.Stmt → List VarId
  | [] => []
  | s :: rest => branchDeclared s ++ blockDeclared rest

def chainDeclared : Core.Chain → List VarId
  | .finish => []
  | .otherwise body => blockDeclared body
  | .also _ body rest => blockDeclared body ++ chainDeclared rest

end

/-- The variables that are not hoisted yet, each once. -/
def newlyHoisted (hoisted : List VarId) : List VarId → List VarId
  | [] => []
  | id :: ids =>
    if id ∈ hoisted then newlyHoisted hoisted ids
    else id :: newlyHoisted (id :: hoisted) ids

def hoistFirst (ids : List VarId) (s : Stmt) : List Stmt :=
  if ids.isEmpty then [s] else [.hoist ids, s]

mutual

/-- The script of a statement, given the variables hoisted before it, and those hoisted after it. -/
def ofStmt (entities : Entities) (hoisted : List VarId) : Core.Stmt → List Stmt × List VarId
  | .declare id init =>
    ([if id ∈ hoisted then .assign id .set init else .declare id init], hoisted)
  | .assign id op value => ([.assign id op value], hoisted)
  | .print argument => ([.print argument], hoisted)
  | .cond test body rest =>
    let ids := newlyHoisted hoisted (blockDeclared body ++ chainDeclared rest)
    let (body, hoisted) := ofBlock entities (ids ++ hoisted) body
    let (rest, hoisted) := ofChain entities hoisted rest
    (hoistFirst ids (.cond test body rest), hoisted)
  | .loop test body =>
    let (body, hoisted) := ofBlock entities hoisted body
    ([.loop test body], hoisted)
  | .each iterator collection body =>
    let (body, hoisted) := ofBlock entities hoisted body
    if (collection.type entities).isArray then
      ([.elements iterator collection body], hoisted)
    else
      ([.count iterator collection body], hoisted)
  | .ret value => ([.ret value], hoisted)
  | .function id body =>
    let (body, hoisted) := ofBlock entities hoisted body
    ([.function id (entities.paramsOf id) body], hoisted)
  | .call callee args type => ([.call callee args type], hoisted)

def ofBlock (entities : Entities) (hoisted : List VarId) :
    List Core.Stmt → List Stmt × List VarId
  | [] => ([], hoisted)
  | s :: rest =>
    let (first, hoisted) := ofStmt entities hoisted s
    let (others, hoisted) := ofBlock entities hoisted rest
    (first ++ others, hoisted)

def ofChain (entities : Entities) (hoisted : List VarId) : Core.Chain → Chain × List VarId
  | .finish => (.finish, hoisted)
  | .otherwise body =>
    let (body, hoisted) := ofBlock entities hoisted body
    (.otherwise body, hoisted)
  | .also test body rest =>
    let (body, hoisted) := ofBlock entities hoisted body
    let (rest, hoisted) := ofChain entities hoisted rest
    (.also test body rest, hoisted)

end

def ofProgram (p : Core.Program) : List Stmt :=
  (ofBlock p.entities [] p.statements).1

end Script
end Barista
