/-!
# Doubles

A double-precision number as its 64 bits in the IEEE 754 binary format.  The bits also tell the
two zeros and the two signs of "not a number" apart, which a comparison does not.
-/

namespace Barista

structure Double where
  bits : UInt64
deriving DecidableEq, Repr, Inhabited

namespace Double

def signMask : UInt64 := 0x8000000000000000

def ofFloat (x : Float) : Double :=
  ⟨x.toBits⟩

def toFloat (d : Double) : Float :=
  Float.ofBits d.bits

def ofInt (n : Int) : Double :=
  ofFloat (Float.ofInt n)

def zero : Double := ⟨0⟩
def one : Double := ⟨0x3ff0000000000000⟩
def infinity : Double := ⟨0x7ff0000000000000⟩
def nan : Double := ⟨0x7ff8000000000000⟩

def isNegative (d : Double) : Bool :=
  d.bits &&& signMask != 0

def magnitudeBits (d : Double) : Nat :=
  d.bits.toNat % 0x8000000000000000

def biasedExponent (d : Double) : Nat :=
  d.magnitudeBits / 0x10000000000000

def fraction (d : Double) : Nat :=
  d.magnitudeBits % 0x10000000000000

def isFinite (d : Double) : Bool :=
  d.biasedExponent != 0x7ff

def isNaN (d : Double) : Bool :=
  d.biasedExponent == 0x7ff && d.fraction != 0

/-- The other sign, for every bit pattern. -/
def neg (d : Double) : Double :=
  ⟨d.bits ^^^ signMask⟩

def add (a b : Double) : Double := ofFloat (a.toFloat + b.toFloat)
def sub (a b : Double) : Double := ofFloat (a.toFloat - b.toFloat)
def mul (a b : Double) : Double := ofFloat (a.toFloat * b.toFloat)
def div (a b : Double) : Double := ofFloat (a.toFloat / b.toFloat)
def pow (a b : Double) : Double := ofFloat (a.toFloat.pow b.toFloat)

/-- Numerical equality: the zeros are equal and "not a number" equals nothing. -/
def eq (a b : Double) : Bool := a.toFloat == b.toFloat
def lt (a b : Double) : Bool := decide (a.toFloat < b.toFloat)
def le (a b : Double) : Bool := decide (a.toFloat ≤ b.toFloat)

end Double
end Barista
