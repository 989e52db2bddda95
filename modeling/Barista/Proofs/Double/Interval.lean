import Barista.Double.Shortest
import Mathlib.Algebra.Order.Field.Power
import Mathlib.Algebra.Order.Ring.Rat
import Mathlib.Order.Monotone.Basic
import Mathlib.Tactic.Linarith
import Mathlib.Tactic.Positivity
import Mathlib.Tactic.Ring

/-!
# The shortest decimal lies in the interval of its double

Seventeen digits are enough: at that many the interval of a double is wider than the decimal grid,
so one of the two grid points next to the double is in it.  The intervals of two magnitudes have at
most an end in common, and of two neighbours only one owns its ends; so a decimal that lies in the
interval of a double determines its magnitude.
-/

namespace Barista

/-- The number that a decimal stands for. -/
def Decimal.value (x : Decimal) : ℚ :=
  x.coefficient * 10 ^ x.exponent

namespace Double

theorem zpow_mul_pow_toNat_neg {a : ℚ} (ha : a ≠ 0) (k : Int) :
    a ^ k * a ^ (-k).toNat = a ^ k.toNat := by
  rw [← zpow_natCast, ← zpow_natCast, ← zpow_add₀ ha]
  congr 1
  omega

namespace Bracket

variable {b : Bracket}

/-! ## Intervals of decimals -/

/-- The number lies in the interval, whose ends belong to it when it is closed. -/
def Contains (b : Bracket) (x : ℚ) : Prop :=
  if b.closed then b.low ≤ x * b.unit ∧ x * b.unit ≤ b.high
  else b.low < x * b.unit ∧ x * b.unit < b.high

theorem scaled_le_iff (a c : Nat) (k : Int) :
    c * 10 ^ k.toNat ≤ a * 10 ^ (-k).toNat ↔ (c : ℚ) * 10 ^ k ≤ a := by
  have hpos : (0 : ℚ) < 10 ^ (-k).toNat := by positivity
  rw [← mul_le_mul_iff_of_pos_right hpos, mul_assoc, zpow_mul_pow_toNat_neg (by norm_num)]
  exact_mod_cast Iff.rfl

theorem le_scaled_iff (a c : Nat) (k : Int) :
    a * 10 ^ (-k).toNat ≤ c * 10 ^ k.toNat ↔ (a : ℚ) ≤ c * 10 ^ k := by
  have hpos : (0 : ℚ) < 10 ^ (-k).toNat := by positivity
  rw [← mul_le_mul_iff_of_pos_right hpos, mul_assoc, zpow_mul_pow_toNat_neg (by norm_num)]
  exact_mod_cast Iff.rfl

theorem holds_scale_iff (b : Bracket) (k : Int) (n : Nat) :
    (b.scale k).holds n ↔ b.Contains (n * 10 ^ k) := by
  have hpoint : (n : ℚ) * 10 ^ k * b.unit = (n * b.unit : Nat) * 10 ^ k := by
    push_cast
    ring
  have hle := le_scaled_iff b.low (n * b.unit) k
  have hge := scaled_le_iff b.high (n * b.unit) k
  have hlt := lt_iff_lt_of_le_iff_le (scaled_le_iff b.low (n * b.unit) k)
  have hgt := lt_iff_lt_of_le_iff_le (le_scaled_iff b.high (n * b.unit) k)
  rw [Contains, hpoint, ← hle, ← hge, ← hlt, ← hgt]
  cases hclosed : b.closed <;> simp [holds, scale, hclosed, Nat.mul_assoc]

theorem holds_of_lt {n : Nat} (hlow : b.low < n * b.unit) (hhigh : n * b.unit < b.high) :
    b.holds n := by
  simp only [holds]
  split
  · simp [hlow.le, hhigh.le]
  · simp [hlow, hhigh]

theorem holds_of_nearest? {n : Nat} (h : b.nearest? = some n) : b.holds n := by
  simp only [nearest?] at h
  split at h
  · cases h
  · cases h
    assumption
  · cases h
    assumption
  · split at h
    · cases h
      assumption
    · cases h
      assumption

/-- An interval that is wider than the unit holds one of the two neighbours of its value. -/
theorem nearest?_ne_none (hunit : 0 < b.unit) (hlow : b.low ≤ b.value) (hhigh : b.value < b.high)
    (hwide : b.low + b.unit < b.high) : b.nearest? ≠ none := by
  have hfloor : b.value / b.unit * b.unit ≤ b.value := Nat.div_mul_le_self _ _
  have hceiling : b.value < (b.value / b.unit + 1) * b.unit := by
    rw [Nat.mul_comm]
    exact Nat.lt_mul_div_succ _ hunit
  have hstep : (b.value / b.unit + 1) * b.unit = b.value / b.unit * b.unit + b.unit :=
    Nat.succ_mul _ _
  have hholds : b.holds (b.value / b.unit) ∨ b.holds (b.value / b.unit + 1) := by
    rcases Nat.lt_or_ge b.low (b.value / b.unit * b.unit) with habove | hbelow
    · exact .inl (holds_of_lt habove (by omega))
    · exact .inr (holds_of_lt (by omega) (by omega))
  simp only [nearest?]
  split
  · rename_i hno hno'
    rw [hno, hno'] at hholds
    simp at hholds
  · simp
  · simp
  · split <;> simp

/-! ## Seventeen digits -/

theorem lt_pow_length (n : Nat) : n < 10 ^ (Nat.toDigits 10 n).length :=
  (Nat.length_toDigits_le_iff (by decide) Nat.length_toDigits_pos).1 (Nat.le_refl _)

theorem pow_length_le {n : Nat} (hn : 0 < n) : 10 ^ (Nat.toDigits 10 n).length ≤ 10 * n := by
  rcases Nat.lt_or_ge 1 (Nat.toDigits 10 n).length with hlong | hshort
  · by_contra hlt
    have hpow : 10 ^ (Nat.toDigits 10 n).length =
        10 * 10 ^ ((Nat.toDigits 10 n).length - 1) := by
      rw [← Nat.pow_succ', Nat.succ_eq_add_one, Nat.sub_add_cancel (Nat.le_of_lt hlong)]
    have hlength := (Nat.length_toDigits_le_iff (b := 10) (n := n)
      (k := (Nat.toDigits 10 n).length - 1) (by decide) (by omega)).2 (by omega)
    omega
  · have hone : 10 ^ (Nat.toDigits 10 n).length ≤ 10 ^ 1 := Nat.pow_le_pow_right (by decide) hshort
    omega

/-- The value has a digit at its magnitude. -/
theorem unit_mul_magnitude_le (hvalue : 0 < b.value) :
    (b.unit : ℚ) * 10 ^ b.magnitude ≤ b.value := by
  simp only [magnitude]
  split
  · rename_i h
    exact (scaled_le_iff _ _ _).1 (by simpa only [scale, Nat.pow_eq] using h)
  · -- the guess was one too high
    have hunit : (b.unit : ℚ) ≤ 10 ^ (Nat.toDigits 10 b.unit).length := by
      exact_mod_cast Nat.le_of_lt (lt_pow_length b.unit)
    have hdigits : (10 : ℚ) ^ (Nat.toDigits 10 b.value).length ≤ 10 * b.value := by
      exact_mod_cast pow_length_le hvalue
    generalize (Nat.toDigits 10 b.unit).length = i at hunit
    generalize (Nat.toDigits 10 b.value).length = j at hdigits
    calc (b.unit : ℚ) * 10 ^ ((j : Int) - i - 1)
        ≤ 10 ^ i * 10 ^ ((j : Int) - i - 1) := by gcongr
      _ = 10 ^ j / 10 := by
        rw [← zpow_natCast, ← zpow_add₀ (by norm_num), ← zpow_natCast, div_eq_mul_inv,
          ← zpow_sub_one₀ (by norm_num)]
        congr 1
        omega
      _ ≤ b.value := by linarith

theorem contains_shortest (h : (b.scale (b.magnitude - 16)).nearest? ≠ none) :
    b.Contains b.shortest.value := by
  simp only [shortest]
  split
  · rename_i x hfound
    obtain ⟨digits, -, hattempt⟩ := List.exists_of_findSome?_eq_some hfound
    obtain ⟨n, hn, rfl⟩ := Option.map_eq_some_iff.1 hattempt
    exact (holds_scale_iff b _ n).1 (holds_of_nearest? hn)
  · rename_i hnone
    have hlast := List.findSome?_eq_none_iff.1 hnone 16 (by decide)
    exact absurd (Option.map_eq_none_iff.1 hlast) h

end Bracket

/-- How far below four times the significand the interval begins. -/
def gap (d : Double) : Nat :=
  if d.fraction = 0 ∧ 1 < d.biasedExponent then 1 else 2

theorem gap_le {d : Double} (h : d.magnitudeBits ≠ 0) : d.gap ≤ 4 * d.significand := by
  have hbits : d.biasedExponent * 0x10000000000000 + d.fraction = d.magnitudeBits :=
    Nat.div_add_mod' _ _
  simp only [gap, significand]
  split <;> split <;> omega

/-- The interval is wide in proportion to the significand. -/
theorem significand_lt (d : Double) : 4 * d.significand < (d.gap + 2) * 10 ^ 16 := by
  have hbound : d.fraction < 0x10000000000000 := Nat.mod_lt _ (by decide)
  simp only [gap, significand]
  split <;> split <;> omega

theorem value_bracket_pos {d : Double} (h : d.magnitudeBits ≠ 0) : 0 < d.bracket.value := by
  have hgap := gap_le h
  have hgap_pos : 0 < d.gap := by
    simp only [gap]
    split <;> decide
  exact Nat.mul_pos (by omega) (Nat.pow_pos (by decide))

/-- With seventeen digits the unit of the grid goes into the value at least `10 ^ 16` times. -/
theorem unit_scale_le {d : Double} (h : d.magnitudeBits ≠ 0) :
    10 ^ 16 * (d.bracket.scale (d.bracket.magnitude - 16)).unit ≤
      (d.bracket.scale (d.bracket.magnitude - 16)).value := by
  have hmagnitude := Bracket.unit_mul_magnitude_le (value_bracket_pos h)
  have hten : (10 : ℚ) ^ d.bracket.magnitude = 10 ^ 16 * 10 ^ (d.bracket.magnitude - 16) := by
    rw [← zpow_natCast, ← zpow_add₀ (by norm_num)]
    congr 1
    omega
  have hscaled : ((10 ^ 16 * d.bracket.unit : Nat) : ℚ) * 10 ^ (d.bracket.magnitude - 16) ≤
      d.bracket.value := by
    rw [hten] at hmagnitude
    push_cast
    linarith
  have hnat := (Bracket.scaled_le_iff _ _ _).2 hscaled
  simpa only [Bracket.scale, Nat.pow_eq, Nat.mul_assoc] using hnat

theorem nearest?_scale_ne_none {d : Double} (h : d.magnitudeBits ≠ 0) :
    (d.bracket.scale (d.bracket.magnitude - 16)).nearest? ≠ none := by
  have hgap := gap_le h
  have hfine := unit_scale_le h
  generalize d.bracket.magnitude - 16 = k at hfine ⊢
  -- in units of the grid the ends and the value are multiples of one number
  obtain ⟨up, hup, hlow, hvalue, hhigh⟩ : ∃ up, 0 < up ∧
      (d.bracket.scale k).low = (4 * d.significand - d.gap) * up ∧
      (d.bracket.scale k).value = 4 * d.significand * up ∧
      (d.bracket.scale k).high = (4 * d.significand + 2) * up :=
    ⟨Nat.pow 2 (d.exponent - 2).toNat * Nat.pow 10 (-k).toNat,
      Nat.mul_pos (Nat.pow_pos (by decide)) (Nat.pow_pos (by decide)),
      Nat.mul_assoc _ _ _, Nat.mul_assoc _ _ _, Nat.mul_assoc _ _ _⟩
  have hunit : 0 < (d.bracket.scale k).unit :=
    Nat.mul_pos (Nat.pow_pos (by decide)) (Nat.pow_pos (by decide))
  have hnarrow : (d.bracket.scale k).unit < (d.gap + 2) * up := by
    have hmul := Nat.mul_lt_mul_of_pos_right (significand_lt d) hup
    rw [hvalue] at hfine
    linarith
  have hwidth : (4 * d.significand + 2) * up =
      (4 * d.significand - d.gap) * up + (d.gap + 2) * up := by
    rw [← Nat.add_mul]
    congr 1
    omega
  apply Bracket.nearest?_ne_none hunit
  · rw [hlow, hvalue]
    exact Nat.mul_le_mul_right _ (Nat.sub_le _ _)
  · rw [hvalue, hhigh]
    exact Nat.mul_lt_mul_of_pos_right (by omega) hup
  · rw [hlow, hhigh, hwidth]
    omega

/-- The shortest decimal of a double rounds to it. -/
theorem contains_shortest (d : Double) : d.bracket.Contains d.shortest.value := by
  simp only [shortest]
  split
  · rename_i hzero
    simp [Bracket.Contains, bracket, Decimal.value, significand, fraction, biasedExponent, hzero]
  · rename_i hne
    exact Bracket.contains_shortest (nearest?_scale_ne_none hne)

/-! ## Neighbouring intervals -/

/-- The significand of the magnitude with the bits `n`. -/
def significandOf (n : Nat) : Nat :=
  if n / 0x10000000000000 = 0 then n % 0x10000000000000
  else 0x10000000000000 + n % 0x10000000000000

def exponentOf (n : Nat) : Int :=
  max (n / 0x10000000000000 : Nat) 1 - 1075

/-- Half way between the magnitude with the bits `n` and the next greater one. -/
def midpoint (n : Nat) : ℚ :=
  (4 * significandOf n + 2) * 2 ^ (exponentOf n - 2)

/-- The next magnitude has the next significand, or it is a power of two and the spacing doubles. -/
theorem significandOf_succ_cases (n : Nat) :
    (significandOf (n + 1) = significandOf n + 1 ∧ exponentOf (n + 1) = exponentOf n ∧
      ¬ ((n + 1) % 0x10000000000000 = 0 ∧ 1 < (n + 1) / 0x10000000000000)) ∨
    (significandOf n = 0x1fffffffffffff ∧ significandOf (n + 1) = 0x10000000000000 ∧
      exponentOf (n + 1) = exponentOf n + 1 ∧
      (n + 1) % 0x10000000000000 = 0 ∧ 1 < (n + 1) / 0x10000000000000) := by
  simp only [significandOf, exponentOf]
  split <;> split <;> omega

theorem two_zpow_add_one_sub (e : Int) : (2 : ℚ) ^ (e + 1 - 2) = 2 ^ (e - 2) * 2 := by
  rw [← zpow_add_one₀ (by norm_num)]
  congr 1
  omega

theorem midpoint_strictMono : StrictMono midpoint := by
  refine strictMono_nat_of_lt_succ fun n ↦ ?_
  have hpos : (0 : ℚ) < 2 ^ (exponentOf n - 2) := by positivity
  rcases significandOf_succ_cases n with ⟨hs, he, -⟩ | ⟨hs, hs', he, -⟩
  · simp only [midpoint, hs, he]
    push_cast
    gcongr
    linarith
  · simp only [midpoint, hs, hs', he, two_zpow_add_one_sub]
    push_cast
    linarith

theorem zpow_exponent_mul_unit (d : Double) :
    (2 : ℚ) ^ (d.exponent - 2) * d.bracket.unit = 2 ^ (d.exponent - 2).toNat := by
  rw [← zpow_mul_pow_toNat_neg (by norm_num), Int.neg_sub]
  simp only [bracket, Nat.pow_eq]
  push_cast
  rfl

theorem high_bracket (d : Double) :
    (d.bracket.high : ℚ) = midpoint d.magnitudeBits * d.bracket.unit := by
  have hhigh : d.bracket.high = (4 * d.significand + 2) * 2 ^ (d.exponent - 2).toNat := rfl
  have hmidpoint : midpoint d.magnitudeBits = (4 * d.significand + 2) * 2 ^ (d.exponent - 2) := rfl
  rw [hhigh, hmidpoint, mul_assoc, zpow_exponent_mul_unit]
  push_cast
  rfl

/-- The interval of a magnitude begins where that of the one below it ends. -/
theorem low_bracket {d : Double} {n : Nat} (h : d.magnitudeBits = n + 1) :
    (d.bracket.low : ℚ) = midpoint n * d.bracket.unit := by
  have hgap := gap_le (d := d) (by omega)
  have hlow : (d.bracket.low : ℚ) =
      (4 * d.significand - d.gap) * (2 ^ (d.exponent - 2) * d.bracket.unit) := by
    have hnat : d.bracket.low = (4 * d.significand - d.gap) * 2 ^ (d.exponent - 2).toNat := rfl
    rw [zpow_exponent_mul_unit, hnat, Nat.cast_mul, Nat.cast_sub hgap]
    push_cast
    rfl
  have hsignificand : d.significand = significandOf (n + 1) := by
    rw [← h]
    rfl
  have hexponent : d.exponent = exponentOf (n + 1) := by
    rw [← h]
    rfl
  rw [hlow, ← mul_assoc]
  congr 1
  rcases significandOf_succ_cases n with ⟨hs, he, hno⟩ | ⟨hs, hs', he, hyes⟩
  · have hgap_two : d.gap = 2 := by
      rw [gap, if_neg]
      rwa [fraction, biasedExponent, h]
    rw [midpoint, hsignificand, hexponent, hs, he, hgap_two]
    push_cast
    ring
  · have hgap_one : d.gap = 1 := by
      rw [gap, if_pos]
      rwa [fraction, biasedExponent, h]
    rw [midpoint, hsignificand, hexponent, hs, hs', he, hgap_one, two_zpow_add_one_sub]
    push_cast
    ring

theorem closed_bracket (d : Double) : d.bracket.closed ↔ d.magnitudeBits % 2 = 0 := by
  have hparity : d.significand % 2 = d.magnitudeBits % 2 := by
    simp only [significand, fraction]
    split <;> omega
  simp [bracket, hparity]

theorem unit_bracket_pos (d : Double) : (0 : ℚ) < d.bracket.unit := by
  have hpos : 0 < d.bracket.unit := Nat.pow_pos (by decide)
  exact_mod_cast hpos

theorem Bracket.Contains.le_midpoint {d : Double} {x : ℚ} (h : d.bracket.Contains x) :
    x ≤ midpoint d.magnitudeBits := by
  rw [← mul_le_mul_iff_of_pos_right (unit_bracket_pos d), ← high_bracket]
  rw [Bracket.Contains] at h
  split at h
  · exact h.2
  · exact h.2.le

theorem Bracket.Contains.midpoint_le {d : Double} {x : ℚ} {n : Nat} (h : d.bracket.Contains x)
    (hn : d.magnitudeBits = n + 1) : midpoint n ≤ x := by
  rw [← mul_le_mul_iff_of_pos_right (unit_bracket_pos d), ← low_bracket hn]
  rw [Bracket.Contains] at h
  split at h
  · exact h.1
  · exact h.1.le

/-- A magnitude with odd bits does not own the ends of its interval. -/
theorem Bracket.Contains.even {d : Double} {x : ℚ} {n : Nat} (h : d.bracket.Contains x)
    (hx : x = midpoint d.magnitudeBits ∨ d.magnitudeBits = n + 1 ∧ x = midpoint n) :
    d.magnitudeBits % 2 = 0 := by
  rw [← closed_bracket]
  by_contra hopen
  rw [Bracket.Contains, if_neg hopen] at h
  rcases hx with rfl | ⟨hn, rfl⟩
  · rw [← high_bracket] at h
    exact lt_irrefl _ h.2
  · rw [← low_bracket hn] at h
    exact lt_irrefl _ h.1

theorem not_contains_of_lt {d d' : Double} {x : ℚ} (hlt : d.magnitudeBits < d'.magnitudeBits)
    (h : d.bracket.Contains x) : ¬ d'.bracket.Contains x := by
  intro h'
  obtain ⟨n, hn⟩ : ∃ n, d'.magnitudeBits = n + 1 := Nat.exists_eq_add_one.2 (by omega)
  have hle : midpoint d.magnitudeBits ≤ midpoint n := midpoint_strictMono.monotone (by omega)
  have hx : x = midpoint d.magnitudeBits :=
    le_antisymm h.le_midpoint (hle.trans (h'.midpoint_le hn))
  have hx' : x = midpoint n := le_antisymm (h.le_midpoint.trans hle) (h'.midpoint_le hn)
  -- the common end belongs to both, but one of two neighbours is odd
  have hnext : d.magnitudeBits = n := midpoint_strictMono.injective (hx.symm.trans hx')
  have heven := h.even (n := n) (.inl hx)
  have heven' := h'.even (.inr ⟨hn, hx'⟩)
  omega

/-- Doubles with the same shortest decimal have the same magnitude. -/
theorem magnitudeBits_eq_of_shortest {d d' : Double} (h : d.shortest.value = d'.shortest.value) :
    d.magnitudeBits = d'.magnitudeBits := by
  have hd := contains_shortest d
  have hd' := contains_shortest d'
  rw [h] at hd
  rcases Nat.lt_trichotomy d.magnitudeBits d'.magnitudeBits with hlt | heq | hgt
  · exact absurd hd' (not_contains_of_lt hlt hd)
  · exact heq
  · exact absurd hd (not_contains_of_lt hgt hd')

end Double
end Barista
