import Barista.Whole
import Mathlib.Algebra.Order.Ring.Int
import Mathlib.Tactic.Linarith
import Mathlib.Tactic.Ring

/-!
# Powers of whole numbers

A power is computed by repeated squaring, and each product on the way has to fit.  None of them is
larger than the power itself, and no square lies on the very end of the range; so whenever the power
fits, the products do.
-/

namespace Barista
namespace Whole

/-- The integer is one of the whole numbers. -/
def Fits (n : Int) : Prop :=
  -0x8000000000000000 ≤ n ∧ n < 0x8000000000000000

theorem fits_zero : Fits 0 := by
  rw [Fits]
  omega

theorem fits_toInt (w : Whole) : Fits w.toInt := ⟨w.le_toInt, w.toInt_lt⟩

theorem ofInt?_eq_none_iff_not_fits {n : Int} : ofInt? n = none ↔ ¬ Fits n := by
  rw [ofInt?_eq_none_iff, Fits]
  omega

/-- No square is equal to `2 ^ 63`. -/
theorem fits_mul_self {b : Int} (h : b * b ≤ 0x8000000000000000) : Fits (b * b) := by
  have hnonneg : 0 ≤ b * b := mul_self_nonneg b
  refine ⟨by omega, lt_of_le_of_ne h ?_⟩
  intro heq
  have hlow : -3037000500 < b := by nlinarith
  have hhigh : b < 3037000500 := by nlinarith
  nlinarith

/-- A factor of a product that fits does so too when the other factor is positive. -/
theorem fits_of_mul {x s : Int} (hs : 0 < s) (h : Fits (x * s)) : Fits x := by
  obtain ⟨hlow, hhigh⟩ := h
  constructor
  · rcases le_or_gt 0 x with hx | hx
    · omega
    · nlinarith
  · rcases le_or_gt 0 x with hx | hx
    · nlinarith
    · omega

/-- A square fits when one of its powers does, also behind a factor. -/
theorem fits_square {x b : Int} {k : Nat} (hx : x ≠ 0) (hk : k ≠ 0)
    (h : Fits (x * (b * b) ^ k)) : Fits (b * b) := by
  refine fits_mul_self ?_
  rcases eq_or_ne b 0 with rfl | hb
  · decide
  have hsquare : 0 < b * b := mul_self_pos.2 hb
  have hself : b * b ≤ (b * b) ^ k := le_self_pow₀ hsquare hk
  obtain ⟨hlow, hhigh⟩ := h
  rcases lt_or_gt_of_ne hx with hneg | hpos
  · nlinarith
  · nlinarith

/-- One round of squaring. -/
theorem mul_pow_eq (x b : Int) (n : Nat) :
    x * b ^ n = x * b ^ (n % 2) * (b * b) ^ (n / 2) := by
  have hsquare : (b * b) ^ (n / 2) = b ^ (2 * (n / 2)) := by rw [pow_mul, pow_two]
  rw [hsquare, mul_assoc, ← pow_add, Nat.mod_add_div]

theorem mulPow?_of_two_le {acc base : Whole} {n : Nat} (hn : 2 ≤ n) :
    mulPow? acc base n = (ofInt? (acc.toInt * base.toInt ^ (n % 2))).bind fun acc' ↦
      (base.mul? base).bind fun base' ↦ mulPow? acc' base' (n / 2) := by
  have hacc : (if n % 2 = 1 then acc.mul? base else some acc) =
      ofInt? (acc.toInt * base.toInt ^ (n % 2)) := by
    split
    · rename_i hodd
      rw [hodd, pow_one, mul?]
    · rename_i heven
      have hzero : n % 2 = 0 := by omega
      rw [hzero, pow_zero, mul_one, ofInt?_toInt]
  rw [mulPow?, if_neg (by omega), hacc]
  rfl

/-- Where the product fits, both products of one round do.  A zero in front could hide a square that
does not fit, so the first factor is zero only together with the base. -/
theorem fits_of_round {acc base : Whole} {n : Nat} (hn : 2 ≤ n)
    (h : acc.toInt ≠ 0 ∨ base.toInt = 0)
    (hfits : Fits (acc.toInt * base.toInt ^ (n % 2) * (base.toInt * base.toInt) ^ (n / 2))) :
    Fits (acc.toInt * base.toInt ^ (n % 2)) ∧ Fits (base.toInt * base.toInt) := by
  by_cases hbase : base.toInt = 0
  · rw [hbase, mul_zero]
    refine ⟨?_, fits_zero⟩
    rcases Nat.mod_two_eq_zero_or_one n with hn | hn
    · rw [hn, pow_zero, mul_one]
      exact fits_toInt acc
    · rw [hn, pow_one, mul_zero]
      exact fits_zero
  · have hfirst : acc.toInt * base.toInt ^ (n % 2) ≠ 0 :=
      mul_ne_zero (h.resolve_right hbase) (pow_ne_zero _ hbase)
    exact ⟨fits_of_mul (pow_pos (mul_self_pos.2 hbase) _) hfits,
      fits_square hfirst (by omega) hfits⟩

/-- The loop of squarings finds the product exactly when it fits. -/
theorem mulPow?_eq {acc base : Whole} {n : Nat} (hn : n ≠ 0)
    (h : acc.toInt ≠ 0 ∨ base.toInt = 0) :
    mulPow? acc base n = ofInt? (acc.toInt * base.toInt ^ n) := by
  induction n using Nat.strong_induction_on generalizing acc base with
  | _ n ih =>
    rcases Nat.lt_or_ge n 2 with hsmall | hlarge
    · have hone : n = 1 := by omega
      rw [hone, mulPow?, if_pos le_rfl, pow_one, mul?]
    rw [mulPow?_of_two_le hlarge, mul_pow_eq acc.toInt base.toInt n, mul?]
    have hround := fits_of_round hlarge h
    cases hfirst : ofInt? (acc.toInt * base.toInt ^ (n % 2)) with
    | none =>
        rw [ofInt?_eq_none_iff_not_fits] at hfirst
        exact (ofInt?_eq_none_iff_not_fits.2 fun hfits ↦ hfirst (hround hfits).1).symm
    | some first =>
        cases hsquare : ofInt? (base.toInt * base.toInt) with
        | none =>
            rw [ofInt?_eq_none_iff_not_fits] at hsquare
            exact (ofInt?_eq_none_iff_not_fits.2 fun hfits ↦ hsquare (hround hfits).2).symm
        | some square =>
            rw [ofInt?_eq_some_iff] at hfirst hsquare
            have hnext : first.toInt ≠ 0 ∨ square.toInt = 0 := by
              rw [hfirst, hsquare, mul_self_eq_zero]
              refine or_iff_not_imp_right.2 fun hbase ↦ ?_
              exact mul_ne_zero (h.resolve_right hbase) (pow_ne_zero _ hbase)
            rw [Option.bind_some, Option.bind_some, ih _ (by omega) (by omega) hnext, hfirst,
              hsquare]

/-- A power has a result exactly when it fits: no product on the way overflows before it does. -/
theorem pow?_eq (a : Whole) (n : Nat) : a.pow? n = ofInt? (a.toInt ^ n) := by
  rw [pow?]
  split
  · rename_i hzero
    rw [hzero, pow_zero]
    rfl
  · rename_i hn
    rw [mulPow?_eq hn (.inl (by decide))]
    exact congrArg ofInt? (one_mul _)

end Whole
end Barista
