import Barista.Core.Tree

/-!
# Agreement of programs

Two trees agree when they have the same shape, entities and types and their double literals are
numerically equal, so that the two zeros count as one number and "not a number" agrees with nothing.
-/

namespace Barista
namespace Core

mutual

def Expr.agrees : Expr → Expr → Bool
  | .int a, .int b => a == b
  | .double a, .double b => a.eq b
  | .bool a, .bool b => a == b
  | .string a, .string b => a == b
  | .var a, .var b => a == b
  | .binary op l r t, .binary op' l' r' t' => op == op' && l.agrees l' && r.agrees r' && t == t'
  | .unary op e t, .unary op' e' t' => op == op' && e.agrees e' && t == t'
  | .ternary c y n t, .ternary c' y' n' t' =>
    c.agrees c' && y.agrees y' && n.agrees n' && t == t'
  | .call f args t, .call f' args' t' => f == f' && Expr.allAgree args args' && t == t'
  | .index a i t, .index a' i' t' => a.agrees a' && i.agrees i' && t == t'
  | .array items t, .array items' t' => Expr.allAgree items items' && t == t'
  | _, _ => false

def Expr.allAgree : List Expr → List Expr → Bool
  | [], [] => true
  | a :: as, b :: bs => a.agrees b && Expr.allAgree as bs
  | _, _ => false

end

mutual

def Stmt.agrees : Stmt → Stmt → Bool
  | .declare v e, .declare v' e' => v == v' && e.agrees e'
  | .assign v op e, .assign v' op' e' => v == v' && op == op' && e.agrees e'
  | .print e, .print e' => e.agrees e'
  | .cond c b r, .cond c' b' r' => c.agrees c' && Stmt.allAgree b b' && r.agrees r'
  | .loop c b, .loop c' b' => c.agrees c' && Stmt.allAgree b b'
  | .each v e b, .each v' e' b' => v == v' && e.agrees e' && Stmt.allAgree b b'
  | .ret none, .ret none => true
  | .ret (some e), .ret (some e') => e.agrees e'
  | .function f b, .function f' b' => f == f' && Stmt.allAgree b b'
  | .call f args t, .call f' args' t' => f == f' && Expr.allAgree args args' && t == t'
  | _, _ => false

def Stmt.allAgree : List Stmt → List Stmt → Bool
  | [], [] => true
  | a :: as, b :: bs => a.agrees b && Stmt.allAgree as bs
  | _, _ => false

def Chain.agrees : Chain → Chain → Bool
  | .finish, .finish => true
  | .otherwise b, .otherwise b' => Stmt.allAgree b b'
  | .also c b r, .also c' b' r' => c.agrees c' && Stmt.allAgree b b' && r.agrees r'
  | _, _ => false

end

def Program.agrees (p q : Program) : Bool :=
  Stmt.allAgree p.statements q.statements && p.entities == q.entities

end Core
end Barista
