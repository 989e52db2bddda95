import Mathlib
import Barista.Double

/-!
# Finite doubles

Which doubles are finite, told from the numbers their bits stand for.  Nothing is lost when a finite
double is taken from a zero, and its sign can be turned.
-/

namespace Barista
namespace Double

open Float.Model Float.Model.UnpackedFloat

/-! ## Bits and what they stand for -/

def exponentBits (b : BitVec 64) : BitVec 11 := @unpackExponent Format.binary64 b

def mantissaBits (b : BitVec 64) : BitVec 52 := @unpackMantissa Format.binary64 b

def unpacked (b : BitVec 64) : UnpackedFloat := UnpackedFloat.unpack Format.binary64 b

def packed (f : UnpackedFloat) : BitVec 64 := UnpackedFloat.pack Format.binary64 f

theorem toNat_exponentBits (b : BitVec 64) :
    (exponentBits b).toNat = b.toNat % 0x8000000000000000 / 0x10000000000000 := by
  simp only [exponentBits, unpackExponent, BitVec.toNat_cast, BitVec.extractLsb_toNat,
    Nat.shiftRight_eq_div_pow]
  norm_num
  omega

theorem isFinite_iff (d : Double) :
    d.isFinite = true ↔ (exponentBits d.bits.toBitVec).toNat ≠ 2047 := by
  rw [toNat_exponentBits]
  simp only [isFinite, biasedExponent, magnitudeBits, bne_iff_ne, UInt64.toNat_toBitVec]

/-- A zero, or a number whose exponent has room in the exponent bits. -/
inductive Fits : UnpackedFloat → Prop
  | zero (s : Sign) : Fits (.zero s)
  | finite (s : Sign) {m : Nat} {e : Int} (hm : 0 < m) (hlow : -1074 ≤ e) (hhigh : e ≤ 971) :
      Fits (.finite s m e hm)

/-- A mantissa with all its 53 bits, and an exponent with room in the exponent bits. -/
structure Normal (m : Nat) (e : Int) : Prop where
  le_mantissa : 2 ^ 52 ≤ m
  mantissa_lt : m < 2 ^ 53
  le_exponent : -1074 ≤ e
  exponent_le : e ≤ 971

theorem Normal.log2_eq {m : Nat} {e : Int} (h : Normal m e) : m.log2 = 52 := by
  have hm : m ≠ 0 := by
    have hle := h.le_mantissa
    omega
  exact (Nat.log2_eq_iff hm).2 ⟨h.le_mantissa, h.mantissa_lt⟩

theorem fits_unpacked {b : BitVec 64} (h : (exponentBits b).toNat ≠ 2047) : Fits (unpacked b) := by
  have hexponent : (exponentBits b).toNat < 2 ^ 11 := BitVec.isLt _
  have hnotInfinite : exponentBits b ≠ -1#11 := fun hall ↦ h (by rw [hall]; rfl)
  rw [unpacked, UnpackedFloat.unpack]
  change Fits (if exponentBits b = -1#11 then _ else if exponentBits b = 0#11 then _ else _)
  rw [if_neg hnotInfinite]
  by_cases hzero : exponentBits b = 0#11
  · rw [if_pos hzero]
    have hfield : (exponentBits b).toNat = 0 := by
      rw [hzero]
      rfl
    split
    · exact .zero _
    · change Fits (.finite _ _ ((exponentBits b).toNat - (1023 + 52) + 1) _)
      exact .finite _ _ (by omega) (by omega)
  · rw [if_neg hzero]
    have hfield : (exponentBits b).toNat ≠ 0 := fun hnat ↦ hzero (BitVec.toNat_inj.1 hnat)
    change Fits (.finite _ _ ((exponentBits b).toNat - (1023 + 52)) _)
    exact .finite _ _ (by omega) (by omega)

theorem packed_finite {s : Sign} {m : Nat} {e : Int} {hm : 0 < m} (hhigh : e ≤ 971) :
    packed (.finite s m e hm) = if m.log2 + 1 = 53 then
      packComponents Format.binary64 s (BitVec.ofNat 11 (e + 1023 + 52).toNat) (BitVec.ofNat 52 m)
    else packComponents Format.binary64 s 0#11 (BitVec.ofNat 52 m) := by
  have hpack : packed (.finite s m e hm) = if 2 ^ 11 ≤ (e + 1023 + 52).toNat + 1 then
      packedInfinity Format.binary64 s
    else if m.log2 + 1 = 53 then
      packComponents Format.binary64 s (BitVec.ofNat 11 (e + 1023 + 52).toNat) (BitVec.ofNat 52 m)
    else packComponents Format.binary64 s 0#11 (BitVec.ofNat 52 m) := rfl
  rw [hpack, if_neg (by omega)]

theorem Fits.exponentBits_ne {f : UnpackedFloat} (h : Fits f) :
    (exponentBits (packed f)).toNat ≠ 2047 := by
  cases h with
  | zero s => cases s <;> decide
  | finite s hm hlow hhigh =>
      rw [packed_finite hhigh]
      split
      · rw [exponentBits, unpackExponent_packComponents, BitVec.toNat_ofNat]
        omega
      · rw [exponentBits, unpackExponent_packComponents]
        decide

theorem unpackSign_packComponents {spec : Format} {s : Sign} {e : BitVec spec.exponentBits}
    {m : BitVec spec.mantissaBitsWithoutImplicit} :
    Sign.ofBitVec (unpackSign (packComponents spec s e m)) = s := by
  have hsign : unpackSign (packComponents spec s e m) = s.toBitVec := by
    ext i hi
    obtain rfl : i = 0 := by omega
    simp [unpackSign, packComponents, BitVec.getLsbD_append, BitVec.getElem_append]
  rw [hsign]
  cases s <;> rfl

/-- Packing a normal number loses nothing. -/
theorem unpacked_packed {s : Sign} {m : Nat} {e : Int} (hm : 0 < m) (h : Normal m e) :
    unpacked (packed (.finite s m e hm)) = .finite s m e hm := by
  have hpack := @packed_finite s m e hm h.exponent_le
  have hlog := h.log2_eq
  obtain ⟨hlow, hhigh, hle, hge⟩ := h
  rw [if_pos (by omega)] at hpack
  have hsign : Sign.ofBitVec (@unpackSign Format.binary64 (packed (.finite s m e hm))) = s := by
    rw [hpack, unpackSign_packComponents]
  have hfield : (exponentBits (packed (.finite s m e hm))).toNat = (e + 1023 + 52).toNat := by
    rw [hpack, exponentBits, unpackExponent_packComponents, BitVec.toNat_ofNat]
    omega
  have hmantissa : mantissaBits (packed (.finite s m e hm)) = BitVec.ofNat 52 m := by
    rw [hpack, mantissaBits, unpackMantissa_packComponents]
  -- The implicit bit stands in front of the mantissa bits.
  have hwhole : (1#1 ++ mantissaBits (packed (.finite s m e hm))).toNat = m := by
    rw [hmantissa, BitVec.toNat_append, ← Nat.shiftLeft_add_eq_or_of_lt (BitVec.isLt _),
      BitVec.toNat_ofNat, Nat.shiftLeft_eq, BitVec.toNat_ofNat]
    omega
  generalize packed (.finite s m e hm) = b at *
  have hunpack : unpacked b = if exponentBits b = -1#11 then _
      else if exponentBits b = 0#11 then _
      else .finite (Sign.ofBitVec (@unpackSign Format.binary64 b)) (1#1 ++ mantissaBits b).toNat
        ((exponentBits b).toNat - (1023 + 52)) _ := rfl
  have hinfinite : exponentBits b ≠ -1#11 := by
    intro hall
    rw [hall] at hfield
    change 2047 = _ at hfield
    omega
  have hsubnormal : exponentBits b ≠ 0#11 := by
    intro hzero
    rw [hzero, BitVec.toNat_ofNat] at hfield
    omega
  rw [if_neg hinfinite, if_neg hsubnormal] at hunpack
  have hexponent : ((exponentBits b).toNat : Int) - (1023 + 52) = e := by omega
  simp only [hwhole, hexponent, hsign] at hunpack
  exact hunpack

/-! ## Doubles -/

/-- What a double means to an operation. -/
def view (d : Double) : UnpackedFloat := unpacked (packed (unpacked d.bits.toBitVec))

theorem fits_view {d : Double} (h : d.isFinite) : Fits d.view :=
  fits_unpacked (fits_unpacked ((isFinite_iff d).1 h)).exponentBits_ne

theorem isFinite_of_fits {d : Double} {f : UnpackedFloat} (hbits : d.bits.toBitVec = packed f)
    (h : Fits f) : d.isFinite := by
  rw [isFinite_iff, hbits]
  exact h.exponentBits_ne

theorem eq_zero_iff {d : Double} : d.eq zero ↔ ∃ s, d.view = .zero s := by
  have heq : d.eq zero = d.view.beq (.zero .positive) := rfl
  rw [heq]
  generalize d.view = f
  cases f with
  | infinity s => cases s <;> simp [UnpackedFloat.beq, UnpackedFloat.compare]
  | notANumber => simp [UnpackedFloat.beq, UnpackedFloat.compare]
  | zero s => simp [UnpackedFloat.beq, UnpackedFloat.compare]
  | finite s m e hm => cases s <;> simp [UnpackedFloat.beq, UnpackedFloat.compare]

theorem isFinite_sub {z d : Double} (hz : z.eq zero) (hd : d.isFinite) : (z.sub d).isFinite := by
  obtain ⟨s, hview⟩ := eq_zero_iff.1 hz
  have hbits : (z.sub d).bits.toBitVec =
      packed (UnpackedFloat.sub Format.binary64 z.view d.view) := rfl
  have hfits := fits_view hd
  rw [hview] at hbits
  generalize d.view = f at *
  refine isFinite_of_fits hbits ?_
  cases hfits with
  | zero t =>
      rw [UnpackedFloat.sub]
      split <;> exact .zero _
  | finite t hm hlow hhigh => exact .finite _ hm hlow hhigh

theorem magnitudeBits_neg (d : Double) : d.neg.magnitudeBits = d.magnitudeBits := by
  have hmask : signMask.toNat % 2 ^ 63 = 0 := by decide
  change (d.bits ^^^ signMask).toNat % 2 ^ 63 = d.bits.toNat % 2 ^ 63
  rw [UInt64.toNat_xor, Nat.xor_mod_two_pow, hmask, Nat.xor_zero]

@[simp] theorem isFinite_neg (d : Double) : d.neg.isFinite = d.isFinite := by
  simp only [isFinite, biasedExponent, magnitudeBits_neg]

/-! ## The sign -/

theorem isNegative_eq_testBit (d : Double) : d.isNegative = d.bits.toNat.testBit 63 := by
  have hmask : (d.bits &&& signMask).toNat = (d.bits.toNat.testBit 63).toNat * 2 ^ 63 := by
    have hpow : signMask.toNat = 2 ^ 63 := rfl
    rw [UInt64.toNat_and, hpow, Nat.and_two_pow]
  rw [Bool.eq_iff_iff, isNegative, bne_iff_ne, ne_eq, ← UInt64.toNat_inj, hmask]
  cases d.bits.toNat.testBit 63 <;> decide

@[simp] theorem isNegative_neg (d : Double) : d.neg.isNegative = !d.isNegative := by
  have hmask : signMask.toNat.testBit 63 = true := by decide
  rw [isNegative_eq_testBit, isNegative_eq_testBit, neg, UInt64.toNat_xor, Nat.testBit_xor, hmask,
    Bool.xor_true]

theorem eq_of_magnitudeBits {d d' : Double} (h : d.magnitudeBits = d'.magnitudeBits)
    (hsign : d.isNegative = d'.isNegative) : d = d' := by
  have hbound := d.bits.toNat_lt
  have hbound' := d'.bits.toNat_lt
  rw [isNegative_eq_testBit, isNegative_eq_testBit, Nat.testBit_eq_decide_div_mod_eq,
    Nat.testBit_eq_decide_div_mod_eq, decide_eq_decide] at hsign
  simp only [magnitudeBits] at h
  have hbits : d.bits = d'.bits := by
    rw [← UInt64.toNat_inj]
    omega
  cases d
  cases d'
  exact congrArg _ hbits

end Double
end Barista
