import Barista.Proofs.Core.Evaluation
import Barista.Proofs.Core.Execution
import Mathlib.Algebra.Field.Rat
import Mathlib.Algebra.Order.Ring.Rat

/-!
# The rational numbers as a model

Numbers are rational, and all other values are lists of them: arrays, and texts by the codes of
their characters.  Division by zero gives zero, and so does a power with a fraction as its exponent,
unless its base is one.
-/

namespace Barista
namespace Double

/-- No number equals both zero and one. -/
theorem eq_one_of_eq_zero {d : Double} (h : d.eq .zero = true) : d.eq .one = false := by
  have hzero : (toFloat .zero).toModel.unpack = .zero .positive := rfl
  have hone : ∃ m e hm, (toFloat .one).toModel.unpack = .finite .positive m e hm :=
    ⟨_, _, _, rfl⟩
  obtain ⟨m, e, hm, hone⟩ := hone
  change d.toFloat.toModel.unpack.beq _ = true at h
  change d.toFloat.toModel.unpack.beq _ = false
  rw [hzero] at h
  rw [hone]
  cases hd : d.toFloat.toModel.unpack with
  | zero s => rfl
  | notANumber => rfl
  | infinity s =>
      rw [hd] at h
      cases s <;> cases h
  | finite s _ _ _ =>
      rw [hd] at h
      cases s <;> cases h

/-- The number that a finite double stands for. -/
def value (d : Double) : ℚ :=
  let significand := if d.biasedExponent = 0 then d.fraction else 2 ^ 52 + d.fraction
  let magnitude := (significand : ℚ) * 2 ^ ((max 1 d.biasedExponent : ℤ) - 1075)
  if d.isNegative then -magnitude else magnitude

example : value ⟨0xc002000000000000⟩ = -9 / 4 := by decide +kernel

end Double

namespace Core

/-- A literal that equals zero or one stands for it; any other keeps its value. -/
def Expr.settle (e : Expr) (value : ℚ) : ℚ :=
  if e.isNumber .zero then 0 else if e.isNumber .one then 1 else value

theorem Expr.settle_zero {e : Expr} (h : e.isNumber .zero = true) (value : ℚ) :
    e.settle value = 0 := by
  rw [settle, if_pos h]

theorem Expr.settle_one {e : Expr} (h : e.isNumber .one = true) (value : ℚ) :
    e.settle value = 1 := by
  have hzero : ¬ e.isNumber .zero = true := by
    intro hzero
    simp only [isNumber] at h hzero
    split at hzero
    · rename_i d hd
      rw [hd] at h
      exact Bool.eq_false_iff.1 (Double.eq_one_of_eq_zero hzero) h
    · cases hzero
  rw [settle, if_neg hzero, if_pos h]

end Core

/-! ## The model -/

namespace Rational

open Barista.Core (Expr Model Machine State)

abbrev Value := Core.Value ℚ (List ℚ)

def power (x y : ℚ) : ℚ :=
  if y.den = 1 then x ^ y.num else if x = 1 then 1 else 0

def unary : UnaryOp → Value → Value
  | .neg, .number x => .number (-x)
  | .not, .bool b => .bool (!b)
  | _, v => v

def binary : BinaryOp → Value → Value → Value
  | .add, .number x, .number y => .number (x + y)
  | .sub, .number x, .number y => .number (x - y)
  | .mul, .number x, .number y => .number (x * y)
  | .div, .number x, .number y => .number (x / y)
  | .pow, .number x, .number y => .number (power x y)
  | .lt, .number x, .number y => .bool (x < y)
  | .le, .number x, .number y => .bool (x ≤ y)
  | .ge, .number x, .number y => .bool (y ≤ x)
  | .gt, .number x, .number y => .bool (y < x)
  | .eq, v, w => .bool (v = w)
  | .ne, v, w => .bool (v ≠ w)
  | _, _, _ => .bool false

def index : Value → Value → Value
  | .other items, .number position => .number (items.getD position.floor.toNat 0)
  | _, _ => .number 0

def array (items : List Value) : Value :=
  .other (items.filterMap fun | .number x => some x | _ => none)

theorem power_zero (x : ℚ) : power x 0 = 1 := by
  simp [power]

theorem one_power (x : ℚ) : power 1 x = 1 := by
  simp [power]

def model : Model ℚ (List ℚ) where
  zero := 0
  one := 1
  int n := (Expr.int n).settle n.toInt
  double d := (Expr.double d).settle d.value
  string text := .other (text.toList.map fun c ↦ (c.toNat : ℚ))
  unary := unary
  binary := binary
  index := index
  array := array
  int_zero _ h := Expr.settle_zero h _
  int_one _ h := Expr.settle_one h _
  double_zero _ h := Expr.settle_zero h _
  double_one _ h := Expr.settle_one h _
  add_zero x := congrArg Core.Value.number (add_zero x)
  zero_add x := congrArg Core.Value.number (zero_add x)
  sub_zero x := congrArg Core.Value.number (sub_zero x)
  zero_sub x := congrArg Core.Value.number (zero_sub x)
  mul_one x := congrArg Core.Value.number (mul_one x)
  one_mul x := congrArg Core.Value.number (one_mul x)
  mul_zero x := congrArg Core.Value.number (mul_zero x)
  zero_mul x := congrArg Core.Value.number (zero_mul x)
  div_one x := congrArg Core.Value.number (div_one x)
  zero_div x := congrArg Core.Value.number (zero_div x)
  pow_zero x := congrArg Core.Value.number (power_zero x)
  one_pow x := congrArg Core.Value.number (one_power x)

/-! ## The machine -/

/-- Calls print their arguments and return the first of them. -/
def call : Core.Callee ℚ (List ℚ) (State Value) :=
  fun _ args s ↦ (args.headD (.number 0), { s with output := s.output ++ args })

/-- A number counts from zero; an array holds its items. -/
def items? : Value → Option (List Value)
  | .bool _ => none
  | .number n => some ((List.range n.floor.toNat).map fun i : ℕ ↦ .number i)
  | .other items => some (items.map .number)

def combine? : AssignOp → Value → Value → Option Value
  | .set, _, _ => none
  | .add, old, v => some (binary .add old v)
  | .sub, old, v => some (binary .sub old v)
  | .mul, old, v => some (binary .mul old v)
  | .div, old, v => some (binary .div old v)

def machine : Machine Value where
  eval e s v t := model.eval call s.store e s = (v, t)
  bool := .bool
  emptyArray := .other []
  items? := items?
  combine? := combine?
  bool_ne := by decide
  items?_emptyArray := rfl
  eval_bool b s v t := by simp [Model.eval, eq_comm]
  eval_emptyArray type s v t := by simp [Model.eval, Model.evalAll, model, array, eq_comm]
  eval_var id s v t := by simp [Model.eval, eq_comm]

end Rational
end Barista
