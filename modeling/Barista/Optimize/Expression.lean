import Barista.Optimize.Fold

/-!
# Optimizing expressions

Operands first, then the operator itself: literals are folded, and where that fails an identity of
arithmetic or logic may drop an operand.
-/

namespace Barista
namespace Optimize

open Barista.Core (Expr)

/-- The first identity that applies, or the operation as it stands. -/
def identity (op : BinaryOp) (left right : Expr) (type : Ty) : Expr :=
  let same := Expr.binary op left right type
  match op with
  | .add =>
    if right.isNumber .zero then left
    else if left.isNumber .zero then right
    else same
  | .sub =>
    if right.isNumber .zero then left
    else if left.isNumber .zero then .unary .neg right type
    else same
  | .mul =>
    if right.isNumber .one then left
    else if left.isNumber .one then right
    else if right.isNumber .zero then right
    else if left.isNumber .zero then left
    else same
  | .div =>
    if right.isNumber .one then left
    else if left.isNumber .zero && !right.isNumber .zero then left
    else same
  | .pow =>
    if right.isNumber .zero then .int .one
    else if left.isNumber .one then .int .one
    else same
  | .and =>
    if left.bool? = some true then right
    else if right.bool? = some true then left
    else same
  | .or =>
    if left.bool? = some false then right
    else if right.bool? = some false then left
    else same
  | _ => same

def binary (op : BinaryOp) (left right : Expr) (type : Ty) : Expr :=
  match fold? op left right with
  | some folded => folded
  | none => identity op left right type

def unary (op : UnaryOp) (operand : Expr) (type : Ty) : Expr :=
  match foldUnary? op operand with
  | some folded => folded
  | none => .unary op operand type

def ternary (test yes no : Expr) (type : Ty) : Expr :=
  match test with
  | .bool true => yes
  | .bool false => no
  | test => .ternary test yes no type

mutual

def expr : Expr → Expr
  | .binary op left right type => binary op (expr left) (expr right) type
  | .unary op operand type => unary op (expr operand) type
  | .ternary test yes no type => ternary (expr test) (expr yes) (expr no) type
  | .call callee args type => .call callee (exprs args) type
  | .index array position type => .index (expr array) (expr position) type
  | .array items type => .array (exprs items) type
  | .int value => .int value
  | .double value => .double value
  | .bool value => .bool value
  | .string value => .string value
  | .var id => .var id

def exprs : List Expr → List Expr
  | [] => []
  | e :: es => expr e :: exprs es

end

end Optimize
end Barista
