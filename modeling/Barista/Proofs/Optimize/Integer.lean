import Barista.Optimize.Fold
import Barista.Proofs.Double.Nearest
import Barista.Proofs.Whole.Power

/-!
# Folding whole numbers

Arithmetic of whole numbers is folded exactly: the literal is the integer that the operation gives,
and where that does not fit nothing is folded.  Comparisons go another way, through the nearest
doubles; they agree with the difference unless two different numbers have the same nearest double.
-/

namespace Barista
namespace Optimize

open Barista.Core (Expr)
open Double (nearest)
open Whole (Fits)

/-! ## Arithmetic -/

/-- The fold gives the integer where it fits, and nothing where it does not. -/
def FoldsTo (fold : Option Expr) (n : Int) : Prop :=
  (∀ r : Whole, fold = some (.int r) ↔ r.toInt = n) ∧ (fold = none ↔ ¬ Fits n)

theorem map_int_eq_some_iff {n : Int} {r : Whole} :
    (Whole.ofInt? n).map Expr.int = some (.int r) ↔ r.toInt = n := by
  rw [Option.map_eq_some_iff, ← Whole.ofInt?_eq_some_iff]
  constructor
  · rintro ⟨w, hw, hr⟩
    cases hr
    exact hw
  · intro h
    exact ⟨r, h, rfl⟩

theorem foldsTo_map_int (n : Int) : FoldsTo ((Whole.ofInt? n).map .int) n := by
  refine ⟨fun r ↦ map_int_eq_some_iff, ?_⟩
  rw [Option.map_eq_none_iff, Whole.ofInt?_eq_none_iff_not_fits]

theorem finite?_ne_int (d : Double) (r : Whole) : finite? d ≠ some (.int r) := by
  rw [finite?]
  split <;> simp

/-- A quotient is folded to a whole number exactly when it is one. -/
theorem foldQuotient?_eq_int_iff {a b q : Whole} : foldQuotient? a b = some (.int q) ↔
    b.toInt ≠ 0 ∧ b.toInt ∣ a.toInt ∧ q.toInt = a.toInt / b.toInt := by
  rw [foldQuotient?]
  split
  · rename_i hzero
    simp [hzero]
  rename_i hzero
  split
  · rename_i hrest
    have hdvd := Int.dvd_iff_tmod_eq_zero.2 hrest
    rw [map_int_eq_some_iff, Int.tdiv_eq_ediv_of_dvd hdvd]
    simp [hzero, hdvd]
  · rename_i hrest
    have hdvd := mt Int.dvd_iff_tmod_eq_zero.1 hrest
    simp [finite?_ne_int, hdvd]

theorem foldQuotient?_eq_none {a b : Whole}
    (h : b.toInt = 0 ∨ a.toInt = -2 ^ 63 ∧ b.toInt = -1) : foldQuotient? a b = none := by
  rw [foldQuotient?]
  rcases h with hzero | ⟨ha, hb⟩
  · rw [if_pos hzero]
  · rw [ha, hb]
    decide

theorem foldPower?_of_lt {a b : Whole} (hb : 0 ≤ b.toInt) (hlt : b.toInt < 2 ^ 32) :
    foldPower? a b = (Whole.ofInt? (a.toInt ^ b.toInt.toNat)).map .int := by
  rw [foldPower?, if_neg (by omega), if_pos (by omega), Whole.pow?_eq]

theorem foldPower?_of_le {a b : Whole} (hle : 2 ^ 32 ≤ b.toInt) : foldPower? a b = none := by
  rw [foldPower?, if_neg (by omega), if_neg (by omega)]

/-- Whole numbers are folded as integers are computed with, up to the ends of their range. -/
theorem foldInt?_exact (a b : Whole) :
    FoldsTo (foldInt? .add a b) (a.toInt + b.toInt) ∧
      FoldsTo (foldInt? .sub a b) (a.toInt - b.toInt) ∧
      FoldsTo (foldInt? .mul a b) (a.toInt * b.toInt) ∧
      (∀ q : Whole, foldInt? .div a b = some (.int q) ↔
        b.toInt ≠ 0 ∧ b.toInt ∣ a.toInt ∧ q.toInt = a.toInt / b.toInt) ∧
      (b.toInt = 0 ∨ a.toInt = -2 ^ 63 ∧ b.toInt = -1 → foldInt? .div a b = none) ∧
      (0 ≤ b.toInt → b.toInt < 2 ^ 32 →
        FoldsTo (foldInt? .pow a b) (a.toInt ^ b.toInt.toNat)) ∧
      (2 ^ 32 ≤ b.toInt → foldInt? .pow a b = none) ∧
      FoldsTo (foldUnary? .neg (.int a)) (-a.toInt) ∧
      ∀ (n : Nat) (r : Whole), a.pow? n = some r ↔ r.toInt = a.toInt ^ n := by
  refine ⟨foldsTo_map_int _, foldsTo_map_int _, foldsTo_map_int _,
    fun q ↦ foldQuotient?_eq_int_iff, foldQuotient?_eq_none, ?_, foldPower?_of_le,
    foldsTo_map_int _, ?_⟩
  · intro hb hlt
    have hfold : foldInt? .pow a b = foldPower? a b := rfl
    rw [hfold, foldPower?_of_lt hb hlt]
    exact foldsTo_map_int _
  · intro n r
    rw [Whole.pow?_eq, Whole.ofInt?_eq_some_iff]

/-! ## Comparisons -/

/-- Whether a comparison holds of two integers. -/
def relates (op : BinaryOp) (x y : Int) : Bool :=
  match op with
  | .lt => x < y
  | .le => x ≤ y
  | .eq => x = y
  | .ne => x ≠ y
  | .ge => y ≤ x
  | .gt => y < x
  | _ => false

/-- Literals are compared as the numbers that their nearest doubles stand for. -/
theorem fold?_of_isRelational {op : BinaryOp} (hop : op.isRelational) (a b : Whole) :
    fold? op (.int a) (.int b) =
      some (.bool (relates op (nearest a.toInt) (nearest b.toInt))) := by
  have ha := Double.stands_view_ofInt a
  have hb := Double.stands_view_ofInt b
  have heq : (Double.ofInt a.toInt).eq (Double.ofInt b.toInt) =
      decide (nearest a.toInt = nearest b.toInt) := by
    rw [Bool.eq_iff_iff, Double.eq_iff_of_stands ha hb, Int.cast_inj, decide_eq_true_iff]
  have hlt {a b : Whole} : (Double.ofInt a.toInt).lt (Double.ofInt b.toInt) =
      decide (nearest a.toInt < nearest b.toInt) := by
    rw [Bool.eq_iff_iff, Double.lt_iff_of_stands (Double.stands_view_ofInt a)
      (Double.stands_view_ofInt b), Int.cast_lt, decide_eq_true_iff]
  have hle {a b : Whole} : (Double.ofInt a.toInt).le (Double.ofInt b.toInt) =
      decide (nearest a.toInt ≤ nearest b.toInt) := by
    rw [Bool.eq_iff_iff, Double.le_iff_of_stands (Double.stands_view_ofInt a)
      (Double.stands_view_ofInt b), Int.cast_le, decide_eq_true_iff]
  cases op with
  | add | sub | mul | div | pow | and | or => cases hop
  | lt | gt => simp only [fold?, foldInt?, foldDouble?, relates, hlt]
  | le | ge => simp only [fold?, foldInt?, foldDouble?, relates, hle]
  | eq => simp only [fold?, foldInt?, foldDouble?, relates, heq]
  | ne => simp only [fold?, foldInt?, foldDouble?, relates, heq, decide_not]

/-- Only the order of the two numbers matters. -/
theorem relates_congr {op : BinaryOp} {x y x' y' : Int} (hlt : x < y ↔ x' < y')
    (heq : x = y ↔ x' = y') : relates op x y = relates op x' y' := by
  have hle : x ≤ y ↔ x' ≤ y' := by omega
  have hge : y ≤ x ↔ y' ≤ x' := by omega
  have hgt : y < x ↔ y' < x' := by omega
  cases op <;> simp only [relates, ne_eq, hlt, heq, hle, hge, hgt]

/-- Comparisons agree with the difference as long as rounding tells the two numbers apart. -/
theorem relates_nearest {op : BinaryOp} {x y : Int} (h : nearest x = nearest y → x = y) :
    relates op (nearest x) (nearest y) = relates op (x - y) 0 := by
  have hle := @Double.nearest_mono x y
  have hge := @Double.nearest_mono y x
  rcases lt_trichotomy x y with hxy | rfl | hxy
  · have hne : nearest x ≠ nearest y := fun heq ↦ hxy.ne (h heq)
    exact relates_congr (by omega) (by omega)
  · exact relates_congr (by omega) (by omega)
  · have hne : nearest x ≠ nearest y := fun heq ↦ hxy.ne' (h heq)
    exact relates_congr (by omega) (by omega)

theorem sub_of_fold? {a b d : Whole} (h : fold? .sub (.int a) (.int b) = some (.int d)) :
    d.toInt = a.toInt - b.toInt :=
  map_int_eq_some_iff.1 h

theorem fold?_of_apart {a b d : Whole} (h : fold? .sub (.int a) (.int b) = some (.int d))
    (hapart : nearest a.toInt = nearest b.toInt → a = b) {op : BinaryOp} (hop : op.isRelational) :
    fold? op (.int a) (.int b) = some (.bool (relates op d.toInt 0)) := by
  have hapart' : nearest a.toInt = nearest b.toInt → a.toInt = b.toInt :=
    fun hnearest ↦ congrArg Whole.toInt (hapart hnearest)
  rw [fold?_of_isRelational hop, relates_nearest hapart', sub_of_fold? h]

/-- Where the difference of two literals is folded, all their comparisons agree with it if and only
if the literals are equal or have different nearest doubles.  Up to `2 ^ 53` they always agree. -/
theorem comparisons_agree_iff {a b d : Whole}
    (h : fold? .sub (.int a) (.int b) = some (.int d)) :
    ((∀ op : BinaryOp, op.isRelational →
        fold? op (.int a) (.int b) = some (.bool (relates op d.toInt 0))) ↔
      (nearest a.toInt = nearest b.toInt → a = b)) ∧
    (a.toInt.natAbs ≤ 2 ^ 53 → b.toInt.natAbs ≤ 2 ^ 53 → ∀ op : BinaryOp, op.isRelational →
      fold? op (.int a) (.int b) = some (.bool (relates op d.toInt 0))) := by
  refine ⟨⟨?_, fun hapart op hop ↦ fold?_of_apart h hapart hop⟩, ?_⟩
  · intro hagree hnearest
    have hequal := hagree .eq rfl
    rw [fold?_of_isRelational rfl, Option.some_inj, Expr.bool.injEq, relates, relates, hnearest,
      decide_eq_decide] at hequal
    have hzero := hequal.1 rfl
    rw [sub_of_fold? h] at hzero
    exact Whole.ext (by omega)
  · intro ha hb op hop
    refine fold?_of_apart h (fun hnearest ↦ ?_) hop
    rw [Double.nearest_of_natAbs_le ha, Double.nearest_of_natAbs_le hb] at hnearest
    exact Whole.ext hnearest

/-- Beyond `2 ^ 53` two numbers that differ by two still have different nearest doubles. -/
theorem comparisons_agree_iff_even :
    let a : Whole := ⟨9007199254740994, by decide, by decide⟩
    let b : Whole := ⟨9007199254740992, by decide, by decide⟩
    let d : Whole := ⟨2, by decide, by decide⟩
    fold? .sub (.int a) (.int b) = some (.int d) ∧
      ∀ op : BinaryOp, op.isRelational →
        fold? op (.int a) (.int b) = some (.bool (relates op d.toInt 0)) := by
  intro a b d
  have hsub : fold? .sub (.int a) (.int b) = some (.int d) := rfl
  have hne : nearest a.toInt ≠ nearest b.toInt := by decide
  exact ⟨hsub, (comparisons_agree_iff hsub).1.2 fun hnearest ↦ (hne hnearest).elim⟩

/-- Two numbers that differ by one are folded to be equal. -/
theorem unequal_folded_equal :
    let a : Whole := ⟨9007199254740993, by decide, by decide⟩
    let b : Whole := ⟨9007199254740992, by decide, by decide⟩
    fold? .sub (.int a) (.int b) = some (.int .one) ∧
      fold? .eq (.int a) (.int b) = some (.bool true) ∧
      fold? .eq (.int a) (.int b) ≠ some (.bool (relates .eq Whole.one.toInt 0)) := by
  intro a b
  have hnearest : nearest a.toInt = nearest b.toInt := by decide
  have hequal : fold? .eq (.int a) (.int b) = some (.bool true) := by
    rw [fold?_of_isRelational rfl, hnearest]
    simp [relates]
  refine ⟨rfl, hequal, ?_⟩
  rw [hequal]
  simp [relates, Whole.one]

end Optimize
end Barista
