import Barista.Core.Tree

/-!
# Folding literals

The value of an operator between two numeric literals, where it can be written as a literal.
Whole numbers are folded exactly: a result that does not fit is not folded, and a quotient that is
no whole number becomes a double.  Comparisons compare doubles.  Infinities and "not a number" are
never the result of a fold.
-/

namespace Barista
namespace Optimize

open Barista.Core (Expr)

def finite? (d : Double) : Option Expr :=
  if d.isFinite then some (.double d) else none

def foldDouble? (op : BinaryOp) (a b : Double) : Option Expr :=
  match op with
  | .add => finite? (a.add b)
  | .sub => finite? (a.sub b)
  | .mul => finite? (a.mul b)
  | .div => if b.eq .zero then none else finite? (a.div b)
  | .pow => finite? (a.pow b)
  | .lt => some (.bool (a.lt b))
  | .le => some (.bool (a.le b))
  | .eq => some (.bool (a.eq b))
  | .ne => some (.bool (!a.eq b))
  | .ge => some (.bool (b.le a))
  | .gt => some (.bool (b.lt a))
  | .and | .or => none

/-- The exponent of a whole power is below `2 ^ 32`. -/
def foldPower? (a b : Whole) : Option Expr :=
  if b.toInt < 0 then finite? ((Double.ofInt a.toInt).pow (Double.ofInt b.toInt))
  else if b.toInt < 0x100000000 then (a.pow? b.toInt.toNat).map .int
  else none

def foldQuotient? (a b : Whole) : Option Expr :=
  if b.toInt = 0 then none
  else if a.toInt.tmod b.toInt = 0 then (Whole.ofInt? (a.toInt.tdiv b.toInt)).map .int
  else finite? ((Double.ofInt a.toInt).div (Double.ofInt b.toInt))

def foldInt? (op : BinaryOp) (a b : Whole) : Option Expr :=
  match op with
  | .add => (a.add? b).map .int
  | .sub => (a.sub? b).map .int
  | .mul => (a.mul? b).map .int
  | .div => foldQuotient? a b
  | .pow => foldPower? a b
  | op => foldDouble? op (Double.ofInt a.toInt) (Double.ofInt b.toInt)

def fold? (op : BinaryOp) (left right : Expr) : Option Expr :=
  match left, right with
  | .int a, .int b => foldInt? op a b
  | left, right => do
    let a ← left.number?
    let b ← right.number?
    foldDouble? op a b

def foldUnary? (op : UnaryOp) (operand : Expr) : Option Expr :=
  match op, operand with
  | .neg, .int n => n.neg?.map .int
  | .neg, .double d => some (.double d.neg)
  | _, _ => none

end Optimize
end Barista
