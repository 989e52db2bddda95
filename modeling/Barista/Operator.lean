/-!
# Operators

The operator symbols of the language, and what each of them means between two operands, in front of
one operand, or in an assignment.
-/

namespace Barista

inductive Symbol
  | lessEqual | greaterEqual | equal | notEqual | both | either
  | plusAssign | minusAssign | starAssign | slashAssign
  | plus | minus | star | slash | caret | less | greater | bang | assign
deriving DecidableEq, Repr

namespace Symbol

def all : List Symbol :=
  [lessEqual, greaterEqual, equal, notEqual, both, either, plusAssign, minusAssign, starAssign,
    slashAssign, plus, minus, star, slash, caret, less, greater, bang, assign]

def text : Symbol → String
  | lessEqual => "<="
  | greaterEqual => ">="
  | equal => "=="
  | notEqual => "!="
  | both => "&&"
  | either => "||"
  | plusAssign => "+="
  | minusAssign => "-="
  | starAssign => "*="
  | slashAssign => "/="
  | plus => "+"
  | minus => "-"
  | star => "*"
  | slash => "/"
  | caret => "^"
  | less => "<"
  | greater => ">"
  | bang => "!"
  | assign => "="

def ofText? (text : String) : Option Symbol :=
  all.find? fun symbol ↦ symbol.text = text

end Symbol

inductive BinaryOp
  | add | sub | mul | div | pow
  | lt | le | eq | ne | ge | gt
  | and | or
deriving DecidableEq, Repr

namespace BinaryOp

def symbol : BinaryOp → Symbol
  | add => .plus
  | sub => .minus
  | mul => .star
  | div => .slash
  | pow => .caret
  | lt => .less
  | le => .lessEqual
  | eq => .equal
  | ne => .notEqual
  | ge => .greaterEqual
  | gt => .greater
  | and => .both
  | or => .either

def ofSymbol? : Symbol → Option BinaryOp
  | .plus => some add
  | .minus => some sub
  | .star => some mul
  | .slash => some div
  | .caret => some pow
  | .less => some lt
  | .lessEqual => some le
  | .equal => some eq
  | .notEqual => some ne
  | .greaterEqual => some ge
  | .greater => some gt
  | .both => some and
  | .either => some or
  | _ => none

def text (op : BinaryOp) : String := op.symbol.text

def isArithmetic : BinaryOp → Bool
  | add | sub | mul | div | pow => true
  | _ => false

def isRelational : BinaryOp → Bool
  | lt | le | eq | ne | ge | gt => true
  | _ => false

def isLogical : BinaryOp → Bool
  | and | or => true
  | _ => false

theorem ofSymbol?_eq_some_iff {s : Symbol} {op : BinaryOp} :
    ofSymbol? s = some op ↔ op.symbol = s := by
  cases s <;> cases op <;> decide

end BinaryOp

inductive UnaryOp
  | neg | not
deriving DecidableEq, Repr

namespace UnaryOp

def symbol : UnaryOp → Symbol
  | neg => .minus
  | not => .bang

def ofSymbol? : Symbol → Option UnaryOp
  | .minus => some neg
  | .bang => some not
  | _ => none

def text (op : UnaryOp) : String := op.symbol.text

theorem ofSymbol?_eq_some_iff {s : Symbol} {op : UnaryOp} :
    ofSymbol? s = some op ↔ op.symbol = s := by
  cases s <;> cases op <;> decide

end UnaryOp

inductive AssignOp
  | set | add | sub | mul | div
deriving DecidableEq, Repr

namespace AssignOp

def symbol : AssignOp → Symbol
  | set => .assign
  | add => .plusAssign
  | sub => .minusAssign
  | mul => .starAssign
  | div => .slashAssign

def ofSymbol? : Symbol → Option AssignOp
  | .assign => some set
  | .plusAssign => some add
  | .minusAssign => some sub
  | .starAssign => some mul
  | .slashAssign => some div
  | _ => none

def text (op : AssignOp) : String := op.symbol.text

def isCompound : AssignOp → Bool
  | set => false
  | _ => true

theorem ofSymbol?_eq_some_iff {s : Symbol} {op : AssignOp} :
    ofSymbol? s = some op ↔ op.symbol = s := by
  cases s <;> cases op <;> decide

end AssignOp
end Barista
