import Barista.Whole
import Barista.Proofs.Double.Finite

/-!
# The double next to a whole number

A whole number becomes the nearest double, and of two equally near ones the one with an even
mantissa.  Comparing two doubles is comparing the numbers that they stand for; so whole numbers are
compared as doubles by what they are rounded to.  Rounding keeps the order, but two numbers may be
rounded to the same one as soon as they have more than 53 bits.
-/

namespace Barista
namespace Double

open Float.Model Float.Model.UnpackedFloat

/-! ## Rounding to the nearest -/

/-- The quotient of two numbers, rounded to the nearest number and, halfway between two, to the
even one. -/
def halfEven (n unit : Nat) : Nat :=
  if unit < 2 * (n % unit) ∨ 2 * (n % unit) = unit ∧ n / unit % 2 = 1 then n / unit + 1
  else n / unit

theorem div_le_halfEven (n unit : Nat) : n / unit ≤ halfEven n unit := by
  rw [halfEven]
  split <;> omega

theorem halfEven_le (n unit : Nat) : halfEven n unit ≤ n / unit + 1 := by
  rw [halfEven]
  split <;> omega

theorem halfEven_one (n : Nat) : halfEven n 1 = n := by
  simp [halfEven, Nat.mod_one]

theorem halfEven_mul {c : Nat} (hc : 0 < c) (n unit : Nat) :
    halfEven (n * c) (unit * c) = halfEven n unit := by
  have hlt : unit * c < 2 * (n % unit * c) ↔ unit < 2 * (n % unit) := by
    rw [← mul_assoc, mul_lt_mul_iff_of_pos_right hc]
  have heq : 2 * (n % unit * c) = unit * c ↔ 2 * (n % unit) = unit := by
    rw [← mul_assoc, mul_left_inj' hc.ne']
  simp only [halfEven, Nat.mul_div_mul_right _ _ hc, Nat.mul_mod_mul_right, hlt, heq]

theorem halfEven_mono {n n' unit : Nat} (h : n ≤ n') : halfEven n unit ≤ halfEven n' unit := by
  rcases Nat.lt_or_ge (n / unit) (n' / unit) with hlt | hge
  · have hlow := halfEven_le n unit
    have hhigh := div_le_halfEven n' unit
    omega
  · -- The quotients are the same, so it is the rests that differ.
    have hquotient : n / unit = n' / unit := le_antisymm (Nat.div_le_div_right h) hge
    have hn := Nat.div_add_mod n unit
    have hn' := Nat.div_add_mod n' unit
    rw [hquotient] at hn
    simp only [halfEven, hquotient]
    generalize unit * (n' / unit) = k at hn hn'
    split <;> split <;> omega

/-- The nearest number with no more than 53 bits in front of its zeros. -/
def nearestNat (n : Nat) : Nat :=
  halfEven n (2 ^ (n.log2 - 52)) * 2 ^ (n.log2 - 52)

/-- The whole number that is the value of the nearest double. -/
def nearest (n : Int) : Int :=
  n.sign * nearestNat n.natAbs

@[simp] theorem nearest_natCast (n : Nat) : nearest n = nearestNat n := by
  cases n with
  | zero => rfl
  | succ n => exact one_mul _

@[simp] theorem nearest_neg (n : Int) : nearest (-n) = -nearest n := by
  rw [nearest, Int.sign_neg, Int.natAbs_neg, neg_mul, nearest]

theorem nearestNat_of_lt {n : Nat} (h : n < 2 ^ 53) : nearestNat n = n := by
  rcases Nat.eq_zero_or_pos n with rfl | hpos
  · rfl
  have hlog : n.log2 < 53 := (Nat.log2_lt hpos.ne').2 h
  have hshift : n.log2 - 52 = 0 := by omega
  rw [nearestNat, hshift, pow_zero, halfEven_one, mul_one]

theorem nearest_of_natAbs_le {n : Int} (h : n.natAbs ≤ 2 ^ 53) : nearest n = n := by
  have hself : nearestNat n.natAbs = n.natAbs := by
    rcases h.lt_or_eq with hlt | heq
    · exact nearestNat_of_lt hlt
    · rw [heq]
      decide
  rw [nearest, hself, Int.sign_mul_natAbs]

/-! ## The bits behind a mantissa -/

/-- The two bits tell the rest that was shifted out from nothing and from a half. -/
structure Tracks (em : ExtendedMantissa) (n unit : Nat) : Prop where
  mantissa : em.mantissa = n / unit
  round : em.roundBit = true ↔ unit ≤ 2 * (n % unit)
  sticky : em.stickyBit = true ↔ n % unit ≠ 0 ∧ 2 * (n % unit) ≠ unit

theorem tracks_one (n : Nat) : Tracks (.ofMantissaAndAccuracy n .exact) n 1 := by
  constructor <;> simp [ExtendedMantissa.ofMantissaAndAccuracy, Nat.mod_one]

theorem Tracks.shiftRightOne {em : ExtendedMantissa} {n unit : Nat} (hunit : 0 < unit)
    (h : Tracks em n unit) : Tracks em.shiftRightOne n (unit * 2) := by
  obtain ⟨hmantissa, hround, hsticky⟩ := h
  have hrest : n % (unit * 2) = n % unit + unit * (n / unit % 2) := Nat.mod_mul
  have hlt := Nat.mod_lt n hunit
  have hbit := Nat.mod_two_eq_zero_or_one (n / unit)
  refine ⟨?_, ?_, ?_⟩
  · rw [ExtendedMantissa.shiftRightOne, hmantissa, Nat.div_div_eq_div_mul]
  · rw [ExtendedMantissa.shiftRightOne, hmantissa, hrest, bne_iff_ne]
    rcases hbit with hbit | hbit <;> rw [hbit] <;> omega
  · rw [ExtendedMantissa.shiftRightOne, Bool.or_eq_true, hround, hsticky, hrest]
    rcases hbit with hbit | hbit <;> rw [hbit] <;> omega

theorem tracks_shiftRight (n k : Nat) :
    Tracks (ExtendedMantissa.ofMantissaAndAccuracy n .exact >>> k) n (2 ^ k) := by
  induction k with
  | zero => exact tracks_one n
  | succ k ih => exact ih.shiftRightOne (Nat.two_pow_pos k)

theorem Tracks.roundedMantissa_eq {em : ExtendedMantissa} {n unit : Nat} (hunit : 0 < unit)
    (h : Tracks em n unit) : em.roundedMantissa = halfEven n unit := by
  obtain ⟨mantissa, round, sticky⟩ := em
  obtain ⟨rfl, hround, hsticky⟩ := h
  dsimp only at hround hsticky
  rw [ExtendedMantissa.roundedMantissa, halfEven]
  cases round <;> cases sticky <;>
    simp only [Bool.false_eq_true, false_iff, true_iff] at hround hsticky <;>
    simp only [ExtendedMantissa.accuracy, Accuracy.roundToNearestEven] <;>
    split <;> omega

/-! ## Rounding a mantissa -/

theorem targetExponent_eq (m : Nat) (e : Int) :
    Format.binary64.targetExponent (totalExponent m e) = max (m.log2 + e - 52) (-1074) := by
  have h : Format.binary64.targetExponent (totalExponent m e) =
      max ((m.log2 : Int) + 1 + e - 53) (-1074) := rfl
  rw [h]
  omega

theorem shiftToTargetExponent_eq {m : Nat} {e : Int} (hlog : 52 ≤ m.log2)
    (he : -1074 ≤ m.log2 + e - 52) :
    shiftToTargetExponent Format.binary64 m e .exact =
      (ExtendedMantissa.ofMantissaAndAccuracy m .exact >>> (m.log2 - 52), m.log2 + e - 52) := by
  have hamount : (Format.binary64.targetExponent (totalExponent m e) - e).toNat = m.log2 - 52 := by
    rw [targetExponent_eq]
    omega
  rw [shiftToTargetExponent, shiftToExponent, Prod.mk.injEq, hamount]
  exact ⟨rfl, by omega⟩

theorem div_two_pow_log2 {m : Nat} (hlog : 52 ≤ m.log2) :
    2 ^ 52 ≤ m / 2 ^ (m.log2 - 52) ∧ m / 2 ^ (m.log2 - 52) < 2 ^ 53 := by
  have hm : m ≠ 0 := by
    rintro rfl
    simp at hlog
  constructor
  · rw [Nat.le_div_iff_mul_le (by positivity), ← pow_add, Nat.add_sub_cancel' hlog]
    exact Nat.log2_self_le hm
  · have hexponent : 53 + (m.log2 - 52) = m.log2 + 1 := by omega
    rw [Nat.div_lt_iff_lt_mul (by positivity), ← pow_add, hexponent]
    exact Nat.lt_log2_self

/-- Rounding stays between the powers of two next to a number. -/
theorem nearestNat_bounds {n : Nat} (hn : 0 < n) :
    2 ^ n.log2 ≤ nearestNat n ∧ nearestNat n ≤ 2 ^ (n.log2 + 1) := by
  rcases Nat.lt_or_ge n.log2 52 with hlt | hge
  · have hself := (Nat.log2_lt hn.ne').1 (hlt.trans (by decide : 52 < 53))
    rw [nearestNat_of_lt hself]
    exact ⟨Nat.log2_self_le hn.ne', Nat.lt_log2_self.le⟩
  · obtain ⟨hlow, hhigh⟩ := div_two_pow_log2 hge
    have hleast := hlow.trans (div_le_halfEven n (2 ^ (n.log2 - 52)))
    have hmost := (halfEven_le n (2 ^ (n.log2 - 52))).trans hhigh
    have hpow : n.log2 = 52 + (n.log2 - 52) := by omega
    have hpow' : n.log2 + 1 = 53 + (n.log2 - 52) := by omega
    constructor
    · calc 2 ^ n.log2 = 2 ^ 52 * 2 ^ (n.log2 - 52) := by rw [← pow_add, ← hpow]
        _ ≤ nearestNat n := Nat.mul_le_mul_right _ hleast
    · calc nearestNat n ≤ 2 ^ 53 * 2 ^ (n.log2 - 52) := Nat.mul_le_mul_right _ hmost
        _ = 2 ^ (n.log2 + 1) := by rw [← pow_add, ← hpow']

theorem nearestNat_mono {n n' : Nat} (h : n ≤ n') : nearestNat n ≤ nearestNat n' := by
  rcases Nat.eq_zero_or_pos n with rfl | hpos
  · exact Nat.zero_le _
  have hpos' : 0 < n' := hpos.trans_le h
  have hlog : n.log2 ≤ n'.log2 :=
    (Nat.le_log2 hpos'.ne').2 ((Nat.log2_self_le hpos.ne').trans h)
  rcases hlog.lt_or_eq with hlt | heq
  · calc nearestNat n ≤ 2 ^ (n.log2 + 1) := (nearestNat_bounds hpos).2
      _ ≤ 2 ^ n'.log2 := Nat.pow_le_pow_right (by decide) hlt
      _ ≤ nearestNat n' := (nearestNat_bounds hpos').1
  · rw [nearestNat, nearestNat, heq]
    exact Nat.mul_le_mul_right _ (halfEven_mono h)

/-- Rounding keeps the order. -/
theorem nearest_mono {n n' : Int} (h : n ≤ n') : nearest n ≤ nearest n' := by
  obtain ⟨k, rfl | rfl⟩ := n.eq_nat_or_neg <;> obtain ⟨k', rfl | rfl⟩ := n'.eq_nat_or_neg <;>
    simp only [nearest_natCast, nearest_neg]
  · exact_mod_cast nearestNat_mono (by omega : k ≤ k')
  · obtain ⟨rfl, rfl⟩ : k = 0 ∧ k' = 0 := by omega
    decide
  · omega
  · exact neg_le_neg (by exact_mod_cast nearestNat_mono (by omega : k' ≤ k))

/-- A mantissa that was rounded up to `2 ^ 53` is shifted once more, and nothing is lost. -/
theorem shift_value {r : Nat} (hlow : 2 ^ 52 ≤ r) (hhigh : r ≤ 2 ^ 53) (e : Int) :
    ((r / 2 ^ (r.log2 - 52) : Nat) : ℚ) * 2 ^ (r.log2 + e - 52) = r * 2 ^ e := by
  rcases hhigh.lt_or_eq with hlt | rfl
  · have hlog : r.log2 = 52 := (Nat.log2_eq_iff (by omega)).2 ⟨hlow, hlt⟩
    have hexponent : ((52 : Nat) : Int) + e - 52 = e := by omega
    rw [hlog, Nat.sub_self, pow_zero, Nat.div_one, hexponent]
  · have hexponent : ((53 : Nat) : Int) + e - 52 = e + 1 := by omega
    rw [Nat.log2_two_pow, hexponent, zpow_add_one₀ (by norm_num)]
    norm_num
    ring

/-- A mantissa of at least 53 bits, far from both ends of the range, is rounded to a normal
number. -/
theorem roundWithAccuracy_eq {m : Nat} {e : Int} (s : Sign) (hlog : 52 ≤ m.log2)
    (hlow : -1000 ≤ m.log2 + e) (hhigh : m.log2 + e ≤ 1000) :
    ∃ m' e' hm, roundWithAccuracy Format.binary64 s m e .exact = .finite s m' e' hm ∧
      Normal m' e' ∧ m.log2 + e - 52 ≤ e' ∧ e' ≤ m.log2 + e - 51 ∧
      (m' : ℚ) * 2 ^ e' = halfEven m (2 ^ (m.log2 - 52)) * 2 ^ (m.log2 + e - 52) := by
  have hround := (tracks_shiftRight m (m.log2 - 52)).roundedMantissa_eq (by positivity)
  have hge := (div_two_pow_log2 hlog).1.trans (div_le_halfEven m (2 ^ (m.log2 - 52)))
  have hle := (halfEven_le m (2 ^ (m.log2 - 52))).trans (div_two_pow_log2 hlog).2
  generalize halfEven m (2 ^ (m.log2 - 52)) = r at *
  simp only [roundWithAccuracy, shiftToTargetExponent_eq hlog (by omega : -1074 ≤ m.log2 + e - 52),
    hround]
  have hr : r ≠ 0 := by omega
  have hlog₁ : 52 ≤ r.log2 := (Nat.le_log2 hr).2 hge
  have hlog₂ : r.log2 < 54 := (Nat.log2_lt hr).2 (by omega)
  have hmantissa := (tracks_shiftRight r (r.log2 - 52)).mantissa
  obtain ⟨hge₂, hlt₂⟩ := div_two_pow_log2 hlog₁
  simp only [shiftToTargetExponent_eq hlog₁
    (by omega : -1074 ≤ r.log2 + (m.log2 + e - 52) - 52), hmantissa]
  rw [dif_neg (by omega)]
  exact ⟨_, _, by omega, rfl, ⟨hge₂, hlt₂, by omega, by omega⟩, by omega, by omega,
    shift_value hge hle _⟩

theorem log2_shiftLeft {m : Nat} (hm : 0 < m) (n : Nat) : (m <<< n).log2 = m.log2 + n := by
  have hpos : 0 < 2 ^ n := Nat.two_pow_pos n
  rw [Nat.shiftLeft_eq, Nat.log2_eq_iff (Nat.mul_pos hm hpos).ne']
  constructor
  · rw [pow_add]
    exact Nat.mul_le_mul_right _ (Nat.log2_self_le hm.ne')
  · rw [add_right_comm, pow_add]
    exact Nat.mul_lt_mul_of_pos_right Nat.lt_log2_self hpos

/-- A number of at most 53 bits is not changed. -/
theorem round_eq {n : Nat} (s : Sign) (hn : 0 < n) (hlt : n < 2 ^ 53) :
    ∃ m e hm, UnpackedFloat.round Format.binary64 s n 0 = .finite s m e hm ∧
      Normal m e ∧ -52 ≤ e ∧ e ≤ 12 ∧ (m : ℚ) * 2 ^ e = n := by
  have hlog : n.log2 < 53 := (Nat.log2_lt hn.ne').2 hlt
  have hamount : (0 - Format.binary64.targetExponent (totalExponent n 0)).toNat = 52 - n.log2 := by
    rw [targetExponent_eq]
    omega
  have hshift := log2_shiftLeft hn (52 - n.log2)
  obtain ⟨m, e, hm, hround, hnormal, hlow, hhigh, hvalue⟩ :=
    @roundWithAccuracy_eq (n <<< (52 - n.log2)) (0 - (52 - n.log2 : Nat)) s
      (by omega) (by omega) (by omega)
  rw [UnpackedFloat.round, decreaseExponent]
  simp only [hamount]
  refine ⟨m, e, hm, hround, hnormal, by omega, by omega, ?_⟩
  have hbits : (n <<< (52 - n.log2)).log2 - 52 = 0 := by omega
  have hexponent : ((n <<< (52 - n.log2)).log2 : Int) + (0 - (52 - n.log2 : Nat)) - 52 =
      -((52 - n.log2 : Nat) : Int) := by omega
  rw [hvalue, hbits, pow_zero, halfEven_one, hexponent, Nat.shiftLeft_eq, Nat.cast_mul,
    Nat.cast_pow, zpow_neg, zpow_natCast, mul_assoc]
  norm_num

/-! ## Numbers that stand in floats -/

/-- The number that a zero or a normal number stands for. -/
inductive Stands : UnpackedFloat → ℚ → Prop
  | zero (s : Sign) : Stands (.zero s) 0
  | finite (s : Sign) {m : Nat} {e : Int} (hm : 0 < m) (h : Normal m e) :
      Stands (.finite s m e hm) (s.apply m * 2 ^ e)

/-- The bits are those of the number. -/
def Holds (x : Float) (q : ℚ) : Prop :=
  ∃ f, x.toBits.toBitVec = packed f ∧ Stands f q

theorem Stands.unpacked_packed {f : UnpackedFloat} {q : ℚ} (h : Stands f q) :
    unpacked (packed f) = f := by
  cases h with
  | zero s => cases s <;> rfl
  | finite s hm hnormal => exact Double.unpacked_packed hm hnormal

theorem Stands.fits {f : UnpackedFloat} {q : ℚ} (h : Stands f q) : Fits f := by
  cases h with
  | zero s => exact .zero s
  | finite s hm hnormal => exact .finite s hm hnormal.le_exponent hnormal.exponent_le

theorem stands_positive {m : Nat} {e : Int} {q : ℚ} (hm : 0 < m) (h : Normal m e)
    (hvalue : (m : ℚ) * 2 ^ e = q) : Stands (.finite .positive m e hm) q := by
  have hstands := Stands.finite .positive hm h
  rwa [Sign.apply, Int.cast_natCast, hvalue] at hstands

theorem Stands.neg {f : UnpackedFloat} {q : ℚ} (h : Stands f q) : Stands f.neg (-q) := by
  cases h with
  | zero s =>
      rw [neg_zero]
      exact .zero _
  | finite s hm hnormal =>
      have hneg := Stands.finite (-s) hm hnormal
      have hsign (n : Int) : (-s).apply n = -s.apply n := by
        cases s with
        | negative => exact (Int.neg_neg n).symm
        | positive => rfl
      rwa [hsign, Int.cast_neg, neg_mul] at hneg

/-- A product of positive numbers is rounded once. -/
theorem holds_of_mul {x : Float} {f g : UnpackedFloat} {m m' : Nat} {e e' : Int} {hm : 0 < m}
    {hm' : 0 < m'} (hbits : x.toBits.toBitVec = packed (UnpackedFloat.mul Format.binary64 f g))
    (hf : f = .finite .positive m e hm) (hg : g = .finite .positive m' e' hm')
    (hlog : 52 ≤ (m * m').log2) (hlow : -1000 ≤ (m * m').log2 + (e + e'))
    (hhigh : (m * m').log2 + (e + e') ≤ 1000) :
    Holds x (halfEven (m * m') (2 ^ ((m * m').log2 - 52)) *
      2 ^ ((m * m').log2 + (e + e') - 52)) := by
  obtain ⟨m₂, e₂, hm₂, hround, hnormal, -, -, hvalue⟩ :=
    roundWithAccuracy_eq .positive hlog hlow hhigh
  have hsign : Sign.positive * Sign.positive = Sign.positive := rfl
  rw [hf, hg, UnpackedFloat.mul, hsign, hround] at hbits
  exact ⟨_, hbits, stands_positive hm₂ hnormal hvalue⟩

/-! ## Whole numbers -/

/-- Below `2 ^ 53` a number is read from a word and multiplied by one. -/
theorem holds_ofNat_small {n : Nat} (hpos : 0 < n) (hlt : n < 2 ^ 53) :
    Holds (Float.ofNat n) n := by
  have hfast : Float.ofNat n = n.toUInt64.toFloat * Float.ofBits 0x3FF0000000000000 := by
    change Float.ofScientific n false 0 = _
    rw [Float.ofScientific, dif_pos ⟨hlt, by decide⟩]
    rfl
  have hnat : n.toUInt64.toNat = n := by
    rw [Nat.toUInt64_eq, UInt64.toNat_ofNat']
    omega
  have hword : n.toUInt64.toFloat.toBits.toBitVec =
      packed (normalize Format.binary64 n.toUInt64.toNat 0 .positive) := rfl
  obtain ⟨m, e, hm, hround, hnormal, hlow, hhigh, hvalue⟩ := round_eq .positive hpos hlt
  rw [hnat, UnpackedFloat.normalize, compare_gt_iff_gt.2 (by omega)] at hword
  simp only [Int.toNat_natCast, hround] at hword
  have hunpack : n.toUInt64.toFloat.toModel.unpack = .finite .positive m e hm := by
    have hbits : n.toUInt64.toFloat.toModel.unpack =
        unpacked n.toUInt64.toFloat.toBits.toBitVec := rfl
    rw [hbits, hword, unpacked_packed hm hnormal]
  have hone : (Float.ofBits 0x3FF0000000000000).toModel.unpack =
      .finite .positive (2 ^ 52) (-52) (by decide) := rfl
  have hlog : (m * 2 ^ 52).log2 = 104 := by
    rw [← Nat.shiftLeft_eq, log2_shiftLeft hm, hnormal.log2_eq]
  have hholds := holds_of_mul (x := Float.ofNat n) (by rw [hfast]; rfl) hunpack hone (by omega)
    (by omega) (by omega)
  have hexponent : ((104 : Nat) : Int) + (e + -52) - 52 = e := by omega
  have hproduct : halfEven (m * 2 ^ 52) (2 ^ 52) = m := by
    have hcancel := halfEven_mul (Nat.two_pow_pos 52) m 1
    rwa [one_mul, halfEven_one] at hcancel
  rwa [hlog, hexponent, hproduct, hvalue] at hholds

theorem holds_ofNat_large {n : Nat} (hge : 2 ^ 53 ≤ n) (hle : n ≤ 2 ^ 63) :
    Holds (Float.ofNat n) (nearestNat n) := by
  have hpos : 0 < n := by omega
  have hslow : Float.ofNat n = Float.ofModel (Float.Model.ofScientific n 0) := by
    change Float.ofScientific n false 0 = _
    rw [Float.ofScientific, dif_neg (by omega)]
    rfl
  have hshift : 0 < n <<< 53 := by
    rw [Nat.shiftLeft_eq]
    omega
  have hscientific : UnpackedFloat.ofScientific Format.binary64 n 0 =
      UnpackedFloat.mul Format.binary64 (.finite .positive (n <<< 53) (-53) hshift)
        (.finite .positive (10 ^ 0) 0 (by decide)) := by
    have hsmall : ¬(0 : Int) < -((2 ^ 11 : Int) + n.log2) := by omega
    rw [UnpackedFloat.ofScientific, dif_neg hpos.ne', if_neg (by decide), if_neg hsmall,
      if_pos le_rfl]
    rfl
  have hbits : (Float.ofNat n).toBits.toBitVec =
      packed (UnpackedFloat.ofScientific Format.binary64 n 0) := by
    rw [hslow]
    rfl
  have hlog : n.log2 < 64 := (Nat.log2_lt hpos.ne').2 (by omega)
  have hlog' : 53 ≤ n.log2 := (Nat.le_log2 hpos.ne').2 hge
  have hproduct : (n <<< 53 * 10 ^ 0).log2 = n.log2 + 53 := by
    rw [pow_zero, mul_one, log2_shiftLeft hpos]
  rw [hscientific] at hbits
  have hholds := holds_of_mul hbits rfl rfl (by omega) (by omega) (by omega)
  have hexponent : ((n.log2 + 53 : Nat) : Int) + (-53 + 0) - 52 = (n.log2 - 52 : Nat) := by omega
  have hunit : n.log2 + 53 - 52 = n.log2 - 52 + 53 := by omega
  rw [hproduct, hexponent, hunit, pow_zero, mul_one, Nat.shiftLeft_eq, pow_add,
    halfEven_mul (Nat.two_pow_pos 53), zpow_natCast] at hholds
  rw [nearestNat]
  push_cast
  exact hholds

theorem holds_ofNat {n : Nat} (hle : n ≤ 2 ^ 63) : Holds (Float.ofNat n) (nearestNat n) := by
  rcases Nat.eq_zero_or_pos n with rfl | hpos
  · exact ⟨.zero .positive, by decide, .zero _⟩
  by_cases hlt : n < 2 ^ 53
  · rw [nearestNat_of_lt hlt]
    exact holds_ofNat_small hpos hlt
  · exact holds_ofNat_large (by omega) hle

theorem Holds.neg {x : Float} {q : ℚ} (h : Holds x q) : Holds (-x) (-q) := by
  obtain ⟨f, hbits, hstands⟩ := h
  have hneg : (-x).toBits.toBitVec = packed (unpacked x.toBits.toBitVec).neg := rfl
  rw [hbits, hstands.unpacked_packed] at hneg
  exact ⟨_, hneg, hstands.neg⟩

/-- A whole number becomes the nearest double. -/
theorem holds_ofInt (w : Whole) : Holds (Float.ofInt w.toInt) (nearest w.toInt) := by
  obtain ⟨n, hlow, hhigh⟩ := w
  dsimp only
  cases n with
  | ofNat n =>
      rw [Int.ofNat_eq_natCast] at hhigh ⊢
      rw [nearest_natCast]
      exact holds_ofNat (by omega)
  | negSucc n =>
      have hvalue : nearest (Int.negSucc n) = -nearestNat (n + 1) := neg_one_mul _
      rw [hvalue, Int.cast_neg]
      exact (holds_ofNat (by omega)).neg

theorem stands_view_ofInt (w : Whole) : Stands (ofInt w.toInt).view (nearest w.toInt) := by
  obtain ⟨f, hbits, hstands⟩ := holds_ofInt w
  have hview : (ofInt w.toInt).view =
      unpacked (packed (unpacked (Float.ofInt w.toInt).toBits.toBitVec)) := rfl
  rw [hview, hbits, hstands.unpacked_packed, hstands.unpacked_packed]
  exact hstands

theorem isFinite_ofInt (w : Whole) : (ofInt w.toInt).isFinite := by
  obtain ⟨f, hbits, hstands⟩ := holds_ofInt w
  exact isFinite_of_fits hbits hstands.fits

/-! ## Comparisons -/

/-- Of two normal numbers the one with the larger exponent is larger. -/
theorem Normal.lt_of_exponent_lt {m m' : Nat} {e e' : Int} (h : Normal m e) (h' : Normal m' e')
    (hlt : e < e') : (m : ℚ) * 2 ^ e < m' * 2 ^ e' := by
  have hm : (m : ℚ) < 2 ^ 53 := by exact_mod_cast h.mantissa_lt
  have hm' : (2 : ℚ) ^ 52 ≤ m' := by exact_mod_cast h'.le_mantissa
  calc (m : ℚ) * 2 ^ e < 2 ^ 53 * 2 ^ e := by gcongr
    _ = 2 ^ 52 * 2 ^ (e + 1) := by rw [zpow_add_one₀ (by norm_num)]; ring
    _ ≤ 2 ^ 52 * 2 ^ e' :=
      mul_le_mul_of_nonneg_left (zpow_le_zpow_right₀ (by norm_num) hlt) (by positivity)
    _ ≤ m' * 2 ^ e' := by gcongr

theorem Normal.compare_eq {m m' : Nat} {e e' : Int} (h : Normal m e) (h' : Normal m' e') :
    (compare e e').then (compare m m') = compare ((m : ℚ) * 2 ^ e) (m' * 2 ^ e') := by
  rcases lt_trichotomy e e' with hlt | rfl | hgt
  · rw [compare_lt_iff_lt.2 hlt, compare_lt_iff_lt.2 (h.lt_of_exponent_lt h' hlt)]
    rfl
  · have hpos : (0 : ℚ) < 2 ^ e := by positivity
    rw [compare_eq_iff_eq.2 rfl]
    change compare m m' = _
    rcases lt_trichotomy m m' with hlt | rfl | hgt
    · rw [compare_lt_iff_lt.2 hlt, compare_lt_iff_lt.2 (by gcongr)]
    · rw [compare_eq_iff_eq.2 rfl, compare_eq_iff_eq.2 rfl]
    · rw [compare_gt_iff_gt.2 hgt, compare_gt_iff_gt.2 (by gcongr)]
  · rw [compare_gt_iff_gt.2 hgt, compare_gt_iff_gt.2 (h'.lt_of_exponent_lt h hgt)]
    rfl

theorem swap_compare (x y : ℚ) : (compare x y).swap = compare (-x) (-y) := by
  rcases lt_trichotomy x y with hlt | rfl | hgt
  · rw [compare_lt_iff_lt.2 hlt, compare_gt_iff_gt.2 (neg_lt_neg hlt)]
    rfl
  · rw [compare_eq_iff_eq.2 rfl, compare_eq_iff_eq.2 rfl]
    rfl
  · rw [compare_gt_iff_gt.2 hgt, compare_lt_iff_lt.2 (neg_lt_neg hgt)]
    rfl

/-- Floats are compared as the numbers that they stand for. -/
theorem Stands.compare_eq {f g : UnpackedFloat} {x y : ℚ} (hf : Stands f x) (hg : Stands g y) :
    f.compare g = some (compare x y) := by
  have hpos {m : Nat} (hm : 0 < m) (e : Int) : (0 : ℚ) < m * 2 ^ e := by positivity
  have hneg {m : Nat} (hm : 0 < m) (e : Int) : -((m : ℚ) * 2 ^ e) < 0 := neg_lt_zero.2 (hpos hm e)
  cases hf with
  | zero s =>
      cases hg with
      | zero t => rw [UnpackedFloat.compare, compare_eq_iff_eq.2 rfl]
      | @finite t m e hm h =>
          cases t <;> simp only [UnpackedFloat.compare, Sign.apply, Int.cast_neg, Int.cast_natCast,
            neg_mul]
          · rw [compare_gt_iff_gt.2 (hneg hm e)]
          · rw [compare_lt_iff_lt.2 (hpos hm e)]
  | @finite s m e hm h =>
      cases hg with
      | zero t =>
          cases s <;> simp only [UnpackedFloat.compare, Sign.apply, Int.cast_neg, Int.cast_natCast,
            neg_mul]
          · rw [compare_lt_iff_lt.2 (hneg hm e)]
          · rw [compare_gt_iff_gt.2 (hpos hm e)]
      | @finite t m' e' hm' h' =>
          cases s <;> cases t <;> simp only [UnpackedFloat.compare, Sign.apply, Int.cast_neg,
            Int.cast_natCast, neg_mul]
          · rw [h.compare_eq h', swap_compare]
          · rw [compare_lt_iff_lt.2 ((hneg hm e).trans (hpos hm' e'))]
          · rw [compare_gt_iff_gt.2 ((hneg hm' e').trans (hpos hm e))]
          · rw [h.compare_eq h']

section

variable {a b : Double} {x y : ℚ}

theorem eq_iff_of_stands (ha : Stands a.view x) (hb : Stands b.view y) : a.eq b ↔ x = y := by
  have heq : a.eq b = a.view.beq b.view := rfl
  rw [heq, UnpackedFloat.beq, ha.compare_eq hb, beq_iff_eq, Option.some_inj, compare_eq_iff_eq]

theorem lt_iff_of_stands (ha : Stands a.view x) (hb : Stands b.view y) : a.lt b ↔ x < y := by
  have hlt : a.lt b ↔ a.view.lt b.view := by
    rw [lt, decide_eq_true_iff]
    exact decide_eq_true_iff (p := a.toFloat.toModel < b.toFloat.toModel)
  rw [hlt, UnpackedFloat.lt, ha.compare_eq hb, beq_iff_eq, Option.some_inj, compare_lt_iff_lt]

theorem le_iff_of_stands (ha : Stands a.view x) (hb : Stands b.view y) : a.le b ↔ x ≤ y := by
  have hle : a.le b ↔ a.view.le b.view := by
    rw [le, decide_eq_true_iff]
    exact decide_eq_true_iff (p := a.toFloat.toModel ≤ b.toFloat.toModel)
  rw [hle, UnpackedFloat.le, ha.compare_eq hb, Option.any_some, ← compare_le_iff_le,
    Ordering.isLE_iff_ne_gt]

end

theorem toInt_eq_zero_of_eq (w : Whole) (h : (ofInt w.toInt).eq zero) : w.toInt = 0 := by
  have hview : Stands zero.view 0 := .zero .positive
  have hzero : nearest w.toInt = 0 := by
    exact_mod_cast (eq_iff_of_stands (stands_view_ofInt w) hview).1 h
  rcases mul_eq_zero.1 hzero with hsign | hnearest
  · exact Int.sign_eq_zero_iff_zero.1 hsign
  · by_contra hne
    have hbound := (nearestNat_bounds (Int.natAbs_pos.2 hne)).1
    have hpow := Nat.two_pow_pos w.toInt.natAbs.log2
    omega

end Double
end Barista
