import Barista.Analysis.Scope
import Barista.Analysis.Error
import Barista.Surface.Tree
import Barista.Core.Tree

/-!
# Analysis of expressions

An expression is checked against the entities and the scope where it stands and becomes a core
expression.  The type that its context expects, if any, is only a hint: it settles the type of an
array literal and is checked by the context itself.
-/

namespace Barista
namespace Analysis

open Barista.Core (VarId FunId Entities)

/-- What an expression can refer to. -/
structure Env where
  entities : Entities
  scope : Scope

namespace Env

def typeOf (env : Env) (e : Core.Expr) : Ty :=
  e.type env.entities

def resolveVariable (env : Env) (name : String) (span : Span) : Except SemanticError VarId :=
  match env.scope.lookup? name with
  | some (.variable id) => .ok id
  | some (.function _) => .error ⟨.notVariable name, span⟩
  | none => .error ⟨.undeclared name, span⟩

def resolveFunction (env : Env) (name : String) (span : Span) : Except SemanticError FunId :=
  match env.scope.lookup? name with
  | some (.function id) => .ok id
  | some (.variable _) => .error ⟨.notFunction name, span⟩
  | none => .error ⟨.undeclared name, span⟩

def requireBool (env : Env) (e : Core.Expr) (span : Span) : Except SemanticError Unit :=
  if env.typeOf e = .bool then .ok () else .error ⟨.notBool, span⟩

def requireNumeric (env : Env) (e : Core.Expr) (span : Span) : Except SemanticError Unit :=
  if (env.typeOf e).isNumeric then .ok () else .error ⟨.notNumeric, span⟩

def requireAssignable (env : Env) (target : Ty) (e : Core.Expr) (span : Span) :
    Except SemanticError Unit :=
  if target.accepts (env.typeOf e) then .ok ()
  else .error ⟨.notAssignable (env.typeOf e) target, span⟩

/-- The function that a call with `count` arguments means. -/
def resolveCallee (env : Env) (callee : Surface.Name) (count : Nat) (openParen : Span) :
    Except SemanticError FunId := do
  let f ← env.resolveFunction callee.text callee.span
  let arity := (env.entities.paramsOf f).length
  if count = arity then
    return f
  else
    throw ⟨.argumentCount arity count, openParen⟩

/-- The types that a function's parameters suggest for its arguments. -/
def paramHints (env : Env) (f : FunId) : List (Option Ty) :=
  (env.entities.paramsOf f).map fun id ↦ some (env.entities.typeOf id)

/-- The declared array type if there is one, else that of the first element. -/
def arrayType (env : Env) (hint : Option Ty) (items : List Core.Expr) : Ty :=
  match hint, items with
  | some (.array element), _ => .array element
  | _, first :: _ => .array (env.typeOf first)
  | _, [] => .array .void

mutual

def expr (env : Env) (hint : Option Ty) : Surface.Expr → Except SemanticError Core.Expr
  | .int value _ => .ok (.int value)
  | .double value _ => .ok (.double value)
  | .bool value _ => .ok (.bool value)
  | .string value _ => .ok (.string value)
  | .ident name span => do
    let id ← env.resolveVariable name span
    return .var id
  | .binary op l r _ => do
    let left ← expr env none l
    let right ← expr env none r
    if op.isArithmetic then
      env.requireNumeric left l.span
      env.requireNumeric right r.span
      return .binary op left right (env.typeOf left)
    else if op.isLogical then
      env.requireBool left l.span
      env.requireBool right r.span
      return .binary op left right .bool
    else
      return .binary op left right .bool
  | .unary .not e _ => do
    let operand ← expr env none e
    env.requireBool operand e.span
    return .unary .not operand .bool
  | .unary .neg e _ => do
    let operand ← expr env none e
    return .unary .neg operand (env.typeOf operand)
  | .ternary t y n span => do
    let test ← expr env none t
    env.requireBool test t.span
    let yes ← expr env hint y
    let no ← expr env hint n
    if env.typeOf no = env.typeOf yes then
      return .ternary test yes no (env.typeOf yes)
    else
      throw ⟨.differentBranches, span⟩
  | .call callee args openParen _ => do
    let f ← env.resolveCallee callee args.length openParen
    let values ← exprs env (env.paramHints f) args
    return .call f values (env.entities.resultOf f)
  | .index a i _ => do
    let array ← expr env none a
    match env.typeOf array with
    | .array element =>
      let position ← expr env none i
      if env.typeOf position = .int then
        return .index array position element
      else
        throw ⟨.notInt, i.span⟩
    | _ => throw ⟨.notArray, a.span⟩
  | .array items _ => do
    let hints := List.replicate items.length (hint.bind Ty.element?)
    let values ← exprs env hints items
    return .array values (env.arrayType hint values)

/-- Each expression with its own hint. -/
def exprs (env : Env) (hints : List (Option Ty)) :
    List Surface.Expr → Except SemanticError (List Core.Expr)
  | [] => .ok []
  | e :: es => do
    let value ← expr env (hints.head?.getD none) e
    let values ← exprs env hints.tail es
    return value :: values

end

def condition (env : Env) (e : Surface.Expr) : Except SemanticError Core.Expr := do
  let test ← env.expr none e
  env.requireBool test e.span
  return test

end Env
end Analysis
end Barista
