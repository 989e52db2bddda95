import Barista.Ty
import Barista.Span

/-!
# Semantic errors

The rules that a program can break, and the words for each of them.
-/

namespace Barista
namespace Analysis

inductive Cause
  | voidVariable
  | alreadyDeclared (name : String)
  | undeclared (name : String)
  | notVariable (name : String)
  | notFunction (name : String)
  | readOnly (name : String)
  | notNumeric
  | notBool
  | notArray
  | notInt
  | notIterable
  | differentBranches
  | notAssignable (found target : Ty)
  | argumentCount (expected found : Nat)
  | returnOutside
  | valueMissing
  | valueInVoid
  | notReturnable (found result : Ty)
deriving DecidableEq, Repr

def Cause.message : Cause → String
  | voidVariable => "Cannot declare a void variable"
  | alreadyDeclared name => s!"Identifier {name} already declared"
  | undeclared name => s!"Reference to: {name} which is not declared"
  | notVariable name => s!"{name} is not a variable"
  | notFunction name => s!"{name} is not a function"
  | readOnly name => s!"{name} is read only"
  | notNumeric => "Int or Double expected"
  | notBool => "Expected a bool"
  | notArray => "Expected an Array"
  | notInt => "Expected an Int"
  | notIterable => "Expected an Array or Int"
  | differentBranches => "Must be same type"
  | notAssignable found target => s!"Cannot assign a {found.text} to a {target.text}"
  | argumentCount expected found =>
    s!"Wrong number of arguments passed: expected {expected}, found {found}"
  | returnOutside => "Return can only appear in a function"
  | valueMissing => "No value returned"
  | valueInVoid => "Cannot return in a void function"
  | notReturnable found result =>
    s!"Cannot return a {found.text} from a function returning {result.text}"

/-- A broken rule and where it is broken. -/
structure SemanticError where
  cause : Cause
  span : Span
deriving DecidableEq, Repr

end Analysis
end Barista
