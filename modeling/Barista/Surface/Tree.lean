import Barista.Ty
import Barista.Token

/-!
# The surface tree

A program as it is written: names are texts, nothing has been checked, and every phrase keeps the
span it was read from.
-/

namespace Barista
namespace Surface

structure Name where
  text : String
  span : Span
deriving DecidableEq, Repr

structure TypeName where
  type : Ty
  span : Span
deriving DecidableEq, Repr

structure Param where
  name : Name
  type : Option TypeName
deriving DecidableEq, Repr

inductive Expr
  | int (value : Whole) (span : Span)
  | double (value : Double) (span : Span)
  | bool (value : Bool) (span : Span)
  | string (value : String) (span : Span)
  | ident (name : String) (span : Span)
  | binary (op : BinaryOp) (left right : Expr) (span : Span)
  | unary (op : UnaryOp) (operand : Expr) (span : Span)
  | ternary (test yes no : Expr) (span : Span)
  | call (callee : Name) (args : List Expr) (openParen span : Span)
  | index (array position : Expr) (span : Span)
  | array (items : List Expr) (span : Span)
deriving Repr

def Expr.span : Expr → Span
  | int _ span | double _ span | bool _ span | string _ span | ident _ span
  | binary _ _ _ span | unary _ _ span | ternary _ _ _ span
  | call _ _ _ span | index _ _ span | array _ span => span

mutual

inductive Stmt
  | declare (type : TypeName) (name : Name) (init : Expr)
  | function (name : Name) (params : List Param) (result : TypeName) (body : List Stmt)
  | assign (target : Name) (op : AssignOp) (opSpan : Span) (value : Expr)
  | print (argument : Expr) (span : Span)
  | cond (test : Expr) (body : List Stmt) (rest : Chain) (span : Span)
  | loop (test : Expr) (body : List Stmt) (span : Span)
  | each (iterator : Name) (collection : Expr) (body : List Stmt) (span : Span)
  | ret (value : Option Expr) (span : Span)
  | call (callee : Name) (args : List Expr) (openParen : Span)

/-- What follows the first branch of a conditional: further conditional branches, then perhaps one
without a condition. -/
inductive Chain
  | finish
  | otherwise (body : List Stmt)
  | also (test : Expr) (body : List Stmt) (rest : Chain)

end

end Surface
end Barista
