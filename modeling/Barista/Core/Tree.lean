import Barista.Core.Entity
import Barista.Operator
import Barista.Whole
import Barista.Double

/-!
# The core tree

A program after analysis: names have become entities and every compound expression carries its type.
-/

namespace Barista
namespace Core

inductive Expr
  | int (value : Whole)
  | double (value : Double)
  | bool (value : Bool)
  | string (value : String)
  | var (id : VarId)
  | binary (op : BinaryOp) (left right : Expr) (type : Ty)
  | unary (op : UnaryOp) (operand : Expr) (type : Ty)
  | ternary (test yes no : Expr) (type : Ty)
  | call (callee : FunId) (args : List Expr) (type : Ty)
  | index (array position : Expr) (type : Ty)
  | array (items : List Expr) (type : Ty)
deriving Repr, Inhabited

mutual

inductive Stmt
  | declare (target : VarId) (init : Expr)
  | assign (target : VarId) (op : AssignOp) (value : Expr)
  | print (argument : Expr)
  | cond (test : Expr) (body : List Stmt) (rest : Chain)
  | loop (test : Expr) (body : List Stmt)
  | each (iterator : VarId) (collection : Expr) (body : List Stmt)
  | ret (value : Option Expr)
  | function (id : FunId) (body : List Stmt)
  | call (callee : FunId) (args : List Expr) (type : Ty)

/-- What follows the first branch of a conditional. -/
inductive Chain
  | finish
  | otherwise (body : List Stmt)
  | also (test : Expr) (body : List Stmt) (rest : Chain)

end

structure Program where
  statements : List Stmt
  entities : Entities

namespace Expr

/-- The type of an expression; that of a variable stands in the table of entities. -/
def type (entities : Entities) : Expr → Ty
  | int _ => .int
  | double _ => .double
  | bool _ => .bool
  | string _ => .string
  | var id => entities.typeOf id
  | binary _ _ _ type | unary _ _ type | ternary _ _ _ type
  | call _ _ type | index _ _ type | array _ type => type

/-- The value of a numeric literal as a double. -/
def number? : Expr → Option Double
  | int n => some (Double.ofInt n.toInt)
  | double d => some d
  | _ => none

def bool? : Expr → Option Bool
  | bool b => some b
  | _ => none

/-- A numeric literal whose value equals `value`. -/
def isNumber (e : Expr) (value : Double) : Bool :=
  match e.number? with
  | some d => d.eq value
  | none => false

end Expr
end Core
end Barista
