/-!
# Whole numbers

The whole numbers of the language: the integers from `-2 ^ 63` up to `2 ^ 63 - 1`.  Every
operation is done on the integers first and has a result only when that integer fits.
-/

namespace Barista

structure Whole where
  toInt : Int
  le_toInt : -0x8000000000000000 ≤ toInt
  toInt_lt : toInt < 0x8000000000000000
deriving DecidableEq, Repr

namespace Whole

def one : Whole := ⟨1, by decide, by decide⟩

def ofInt? (n : Int) : Option Whole :=
  if h : -0x8000000000000000 ≤ n ∧ n < 0x8000000000000000 then some ⟨n, h.1, h.2⟩ else none

def neg? (a : Whole) : Option Whole := ofInt? (-a.toInt)
def add? (a b : Whole) : Option Whole := ofInt? (a.toInt + b.toInt)
def sub? (a b : Whole) : Option Whole := ofInt? (a.toInt - b.toInt)
def mul? (a b : Whole) : Option Whole := ofInt? (a.toInt * b.toInt)

/-- The product of `acc` and a power of `base` with a positive exponent, by repeated squaring.
Every product on the way has to fit. -/
def mulPow? (acc base : Whole) (n : Nat) : Option Whole :=
  if n ≤ 1 then acc.mul? base
  else do
    let acc ← (if n % 2 = 1 then acc.mul? base else some acc)
    let base ← base.mul? base
    mulPow? acc base (n / 2)

def pow? (a : Whole) (n : Nat) : Option Whole :=
  if n = 0 then some one else mulPow? one a n

/-- The decimal digits of a number, behind a sign if it is negative. -/
def text (a : Whole) : String := toString a.toInt

@[ext] theorem ext {a b : Whole} (h : a.toInt = b.toInt) : a = b := by
  cases a
  cases b
  cases h
  rfl

theorem ofInt?_eq_some_iff {n : Int} {w : Whole} : ofInt? n = some w ↔ w.toInt = n := by
  constructor
  · intro h
    simp only [ofInt?] at h
    split at h
    · cases h
      rfl
    · cases h
  · rintro rfl
    rw [ofInt?, dif_pos ⟨w.le_toInt, w.toInt_lt⟩]

@[simp] theorem ofInt?_toInt (w : Whole) : ofInt? w.toInt = some w :=
  ofInt?_eq_some_iff.2 rfl

theorem ofInt?_eq_none_iff {n : Int} :
    ofInt? n = none ↔ n < -0x8000000000000000 ∨ 0x8000000000000000 ≤ n := by
  simp only [ofInt?]
  split <;> simp <;> omega

end Whole
end Barista
