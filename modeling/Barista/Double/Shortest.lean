import Barista.Double

/-!
# The shortest decimal of a double

Among the decimals that read back as a given finite double this finds one with the fewest digits,
and of those the nearest; of two that are equally near, the greater.

A double with significand `m` and exponent `q` is `m * 2 ^ q`.  The reals that round to it reach
half way to its two neighbours, ends included when `m` is even.  For one, two, ... digits the two
points of the decimal grid next to the double are tested against that interval, in whole numbers
over one common denominator.
-/

namespace Barista

/-- The number `coefficient * 10 ^ exponent`. -/
structure Decimal where
  coefficient : Nat
  exponent : Int
deriving DecidableEq, Repr

namespace Double

def significand (d : Double) : Nat :=
  if d.biasedExponent = 0 then d.fraction else 0x10000000000000 + d.fraction

def exponent (d : Double) : Int :=
  max d.biasedExponent 1 - 1075

/-- A number `value / unit` with the interval of reals that round to it. -/
structure Bracket where
  low : Nat
  value : Nat
  high : Nat
  unit : Nat
  closed : Bool

/-- The neighbour below a power of two is only half as far away. -/
def bracket (d : Double) : Bracket :=
  let quarters := 4 * d.significand
  let below := if d.fraction = 0 ∧ 1 < d.biasedExponent then 1 else 2
  let up := Nat.pow 2 (d.exponent - 2).toNat
  { low := (quarters - below) * up
    value := quarters * up
    high := (quarters + 2) * up
    unit := Nat.pow 2 (2 - d.exponent).toNat
    closed := d.significand % 2 = 0 }

namespace Bracket

/-- The same interval measured in units of `10 ^ k`. -/
def scale (b : Bracket) (k : Int) : Bracket :=
  let factor := Nat.pow 10 (-k).toNat
  { low := b.low * factor
    value := b.value * factor
    high := b.high * factor
    unit := b.unit * Nat.pow 10 k.toNat
    closed := b.closed }

def holds (b : Bracket) (n : Nat) : Bool :=
  let point := n * b.unit
  if b.closed then b.low ≤ point && point ≤ b.high else b.low < point && point < b.high

/-- The whole number nearest to the value among its two neighbours that lie in the interval. -/
def nearest? (b : Bracket) : Option Nat :=
  let floor := b.value / b.unit
  let ceiling := floor + 1
  match b.holds floor, b.holds ceiling with
  | false, false => none
  | true, false => some floor
  | false, true => some ceiling
  | true, true =>
    if b.value - floor * b.unit < ceiling * b.unit - b.value then some floor else some ceiling

/-- The `e` with `10 ^ e ≤ value < 10 ^ (e + 1)`, for a positive value. -/
def magnitude (b : Bracket) : Int :=
  let guess : Int := (Nat.toDigits 10 b.value).length - (Nat.toDigits 10 b.unit).length
  let scaled := b.scale guess
  if scaled.unit ≤ scaled.value then guess else guess - 1

/-- Seventeen digits are always enough. -/
def shortest (b : Bracket) : Decimal :=
  let top := b.magnitude
  let attempt (digits : Nat) : Option Decimal :=
    let k := top - digits
    ((b.scale k).nearest?).map fun n ↦ ⟨n, k⟩
  match (List.range 17).findSome? attempt with
  | some decimal => decimal
  | none =>
    let last := b.scale (top - 16)
    ⟨last.value / last.unit, top - 16⟩

end Bracket

/-- The shortest decimal of the magnitude of a finite double. -/
def shortest (d : Double) : Decimal :=
  if d.magnitudeBits = 0 then ⟨0, 0⟩ else d.bracket.shortest

end Double
end Barista
