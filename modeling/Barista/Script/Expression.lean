import Barista.Core.Tree
import Barista.Double.Layout
import Barista.Text.Quoted

/-!
# Expressions in a script

The JavaScript text of an expression, given how entities are written.  Every operation stands in
parentheses, so that no precedence matters, and so does every negative literal.
-/

namespace Barista
namespace Script

open Barista.Core (Entity Expr)

def operator : BinaryOp → String
  | .pow => "**"
  | .ne => "!=="
  | op => op.text

def inParens (text : String) : String :=
  "(" ++ text ++ ")"

def commaList (texts : List String) : String :=
  ", ".intercalate texts

def wholeText (n : Whole) : String :=
  if n.toInt < 0 then inParens n.text else n.text

def doubleText (d : Double) : String :=
  if d.isNegative then inParens d.text else d.text

mutual

def render (refer : Entity → String) : Expr → String
  | .int n => wholeText n
  | .double d => doubleText d
  | .bool b => if b then "true" else "false"
  | .string s => Text.quoted s
  | .var id => refer (.variable id)
  | .binary op left right _ =>
    inParens (render refer left ++ " " ++ operator op ++ " " ++ render refer right)
  | .unary op operand _ => inParens (op.text ++ render refer operand)
  | .ternary test yes no _ =>
    inParens (render refer test ++ " ? " ++ render refer yes ++ " : " ++ render refer no)
  | .call callee args _ => refer (.function callee) ++ inParens (commaList (renderAll refer args))
  | .index array position _ => render refer array ++ "[" ++ render refer position ++ "]"
  | .array items _ => "[" ++ commaList (renderAll refer items) ++ "]"

def renderAll (refer : Entity → String) : List Expr → List String
  | [] => []
  | e :: es => render refer e :: renderAll refer es

end

end Script
end Barista
