import Barista.Double.Shortest

/-!
# The text of a double

The shortest digits of a double, laid out with a point or with an exponent.  A literal keeps a
fraction digit, so that it never reads as a whole number, and has an exponent when it is very small
or very large; the plain form has neither.
-/

namespace Barista

/-- How a decimal is laid out: which exponents of its first digit are written positionally, and
whether a whole number gets a fraction digit. -/
structure Layout where
  positional : Int → Bool
  keepsFraction : Bool

namespace Layout

def literal : Layout :=
  { positional := fun e ↦ -5 < e && e < 16
    keepsFraction := true }

def plain : Layout :=
  { positional := fun _ ↦ true
    keepsFraction := false }

/-- The digits without needless zeros behind them; zero has one digit. -/
def significantDigits (coefficient : Nat) : List Char :=
  match ((Nat.toDigits 10 coefficient).reverse.dropWhile (· = '0')).reverse with
  | [] => ['0']
  | digits => digits

def withPoint (layout : Layout) (digits : List Char) (e : Int) : List Char :=
  let zeros (n : Nat) : List Char := List.replicate n '0'
  if e < 0 then
    ['0', '.'] ++ zeros (-e - 1).toNat ++ digits
  else
    let count := e.toNat + 1
    if digits.length ≤ count then
      digits ++ zeros (count - digits.length) ++ if layout.keepsFraction then ['.', '0'] else []
    else
      digits.take count ++ '.' :: digits.drop count

def withExponent (digits : List Char) (e : Int) : List Char :=
  digits.take 1 ++ (if digits.length ≤ 1 then [] else '.' :: digits.drop 1) ++
    'e' :: (toString e).toList

def decimal (layout : Layout) (x : Decimal) : List Char :=
  let digits := significantDigits x.coefficient
  let e := (Nat.toDigits 10 x.coefficient).length - 1 + x.exponent
  if layout.positional e then layout.withPoint digits e else withExponent digits e

def render (layout : Layout) (d : Double) : String :=
  if d.isNaN then "NaN"
  else
    let magnitude := if d.isFinite then layout.decimal d.shortest else "inf".toList
    String.ofList (if d.isNegative then '-' :: magnitude else magnitude)

end Layout

namespace Double

/-- The text of a double as a literal: `3.0`, `0.0001`, `1e16`. -/
def text (d : Double) : String :=
  Layout.literal.render d

/-- The text of a double without an exponent: `3`, `0.0001`, `10000000000000000`. -/
def plainText (d : Double) : String :=
  Layout.plain.render d

end Double
end Barista
