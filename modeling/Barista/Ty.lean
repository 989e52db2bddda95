/-!
# Types

Five scalar types and arrays.  Numbers may stand for one another, and so may arrays whatever their
elements are; every other type accepts only itself.
-/

namespace Barista

inductive Ty
  | bool
  | int
  | double
  | string
  | void
  | array (element : Ty)
deriving DecidableEq, Repr, Inhabited

namespace Ty

def isNumeric : Ty → Bool
  | int | double => true
  | _ => false

def isArray : Ty → Bool
  | array _ => true
  | _ => false

def element? : Ty → Option Ty
  | array element => some element
  | _ => none

/-- A place of type `target` can hold a value of type `found`. -/
def accepts (target found : Ty) : Bool :=
  (target.isNumeric && found.isNumeric) || (target.isArray && found.isArray) || target == found

def text : Ty → String
  | bool => "bool"
  | int => "int"
  | double => "double"
  | string => "string"
  | void => "void"
  | array element => "array[" ++ element.text ++ "]"

end Ty
end Barista
