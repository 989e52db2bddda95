import Barista.Double.Shortest

/-!
# Reading doubles

The grammar of decimal numbers, with their conversion to the nearest double.
-/

namespace Barista

/-- The whole number that a list of decimal digits denotes. -/
def digitsValue (digits : List Char) : Nat :=
  digits.foldl (fun n c ↦ 10 * n + (c.toNat - '0'.toNat)) 0

namespace Decimal

/-- The double nearest to a decimal.  Decimals far outside the range of doubles are settled by the
exponent of their first digit. -/
def toDouble (x : Decimal) : Double :=
  let e := (Nat.toDigits 10 x.coefficient).length - 1 + x.exponent
  if x.coefficient = 0 ∨ e < -400 then Double.zero
  else if 400 < e then Double.infinity
  else Double.ofFloat (Float.ofScientific x.coefficient (x.exponent < 0) x.exponent.natAbs)

end Decimal

namespace Double

/-- An exponent is empty or is `e` or `E`, an optional sign and digits. -/
def readExponent? : List Char → Option Int
  | [] => some 0
  | mark :: rest =>
    if mark = 'e' ∨ mark = 'E' then
      let (negative, digits) :=
        match rest with
        | '-' :: digits => (true, digits)
        | '+' :: digits => (false, digits)
        | digits => (false, digits)
      if digits.isEmpty ∨ ¬ digits.all Char.isDigit then none
      else some (if negative then - (digitsValue digits : Int) else digitsValue digits)
    else none

/-- Digits with an optional point among or around them, then an exponent. -/
def readDecimal? (text : List Char) : Option Decimal :=
  let whole := text.takeWhile Char.isDigit
  let (fraction, rest) :=
    match text.dropWhile Char.isDigit with
    | '.' :: rest => (rest.takeWhile Char.isDigit, rest.dropWhile Char.isDigit)
    | rest => ([], rest)
  if whole.isEmpty && fraction.isEmpty then none
  else
    (readExponent? rest).map fun e ↦ ⟨digitsValue (whole ++ fraction), e - fraction.length⟩

def readMagnitude? (text : List Char) : Option Double :=
  let lower := String.ofList (text.map Char.toLower)
  if lower = "inf" ∨ lower = "infinity" then some infinity
  else if lower = "nan" then some nan
  else (readDecimal? text).map Decimal.toDouble

def read? (text : String) : Option Double :=
  match text.toList with
  | '-' :: rest => (readMagnitude? rest).map neg
  | '+' :: rest => readMagnitude? rest
  | rest => readMagnitude? rest

end Double
end Barista
