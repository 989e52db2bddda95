import Barista.Double.Layout
import Barista.Double.Reader
import Barista.Proofs.Double.Interval
import Barista.Proofs.Double.Finite

/-!
# The text of a double determines it

A literal is laid out as digits with a point among them or an exponent behind them, and reading
those digits gives the number back that was laid out.  That number lies in the interval of the
double, so the text tells its magnitude; the sign is the one in front.
-/

namespace Barista

/-! ## Digits -/

theorem digitsValue_eq (digits : List Char) : digitsValue digits = Nat.ofDigitChars 10 digits 0 :=
  Nat.ofDigitChars_eq_foldl.symm

theorem digitsValue_toDigits (n : Nat) : digitsValue (Nat.toDigits 10 n) = n := by
  rw [digitsValue_eq, Nat.ofDigitChars_ten_toDigits]

theorem digitsValue_append (a b : List Char) :
    digitsValue (a ++ b) = 10 ^ b.length * digitsValue a + digitsValue b := by
  simp only [digitsValue_eq]
  rw [Nat.ofDigitChars_append, Nat.ofDigitChars_eq_ofDigitChars_zero]

theorem digitsValue_replicate_zero (n : Nat) : digitsValue (List.replicate n '0') = 0 := by
  rw [digitsValue_eq, Nat.ofDigitChars_replicate_zero, Nat.mul_zero]

theorem isDigit_of_mem_replicate_zero {n : Nat} : ∀ c ∈ List.replicate n '0', c.isDigit := by
  intro c hc
  rw [List.eq_of_mem_replicate hc]
  decide

theorem isDigit_of_mem_toDigits {n : Nat} : ∀ c ∈ Nat.toDigits 10 n, c.isDigit :=
  fun _ hc ↦ Nat.isDigit_of_mem_toDigits (by decide) (by decide) hc

theorem exists_toDigits_eq_cons (n : Nat) :
    ∃ c cs, Nat.toDigits 10 n = c :: cs ∧ ∀ c' ∈ c :: cs, c'.isDigit := by
  obtain ⟨c, cs, htext⟩ := List.exists_cons_of_ne_nil (Nat.toDigits_ne_nil (n := n) (b := 10))
  refine ⟨c, cs, htext, ?_⟩
  rw [← htext]
  exact isDigit_of_mem_toDigits

theorem toList_toString (e : Int) :
    (toString e).toList =
      if e < 0 then '-' :: Nat.toDigits 10 e.natAbs else Nat.toDigits 10 e.natAbs := by
  match e with
  | .ofNat n => exact Nat.toList_repr
  | .negSucc n =>
      have htext : toString (Int.negSucc n) = "-" ++ Nat.repr (n + 1) := rfl
      rw [htext, if_pos (Int.negSucc_lt_zero n), String.toList_append, Nat.toList_repr]
      rfl

namespace Layout

/-- Only zeros at the end are left out. -/
theorem toDigits_eq_significantDigits (n : Nat) :
    ∃ zeros, Nat.toDigits 10 n = significantDigits n ++ List.replicate zeros '0' := by
  have hsplit := List.takeWhile_append_dropWhile (p := (· = '0')) (l := (Nat.toDigits 10 n).reverse)
  have hzeros : ∀ c ∈ (Nat.toDigits 10 n).reverse.takeWhile (· = '0'), c = '0' :=
    fun c hc ↦ by simpa using List.mem_takeWhile_imp hc
  rw [List.eq_replicate_of_mem hzeros] at hsplit
  generalize ((Nat.toDigits 10 n).reverse.takeWhile (· = '0')).length = zeros at hsplit
  have hdigits : Nat.toDigits 10 n =
      ((Nat.toDigits 10 n).reverse.dropWhile (· = '0')).reverse ++ List.replicate zeros '0' := by
    have hreverse := congrArg List.reverse hsplit
    simpa using hreverse.symm
  simp only [significantDigits]
  split
  · rename_i hnil
    -- a number of zeros alone is zero, which has one digit
    rw [hnil, List.nil_append] at hdigits
    have hn : n = 0 := by
      rw [← digitsValue_toDigits n, hdigits, digitsValue_replicate_zero]
    exact ⟨0, by rw [hn]; rfl⟩
  · exact ⟨zeros, hdigits⟩

theorem significantDigits_ne_nil (n : Nat) : significantDigits n ≠ [] := by
  simp only [significantDigits]
  split
  · simp
  · assumption

theorem isDigit_of_mem_significantDigits {n : Nat} {c : Char} (h : c ∈ significantDigits n) :
    c.isDigit := by
  obtain ⟨zeros, hzeros⟩ := toDigits_eq_significantDigits n
  have hmem : c ∈ Nat.toDigits 10 n := by
    rw [hzeros]
    exact List.mem_append_left _ h
  exact isDigit_of_mem_toDigits c hmem

/-- The exponent of the first digit places all of them. -/
theorem value_eq (x : Decimal) :
    x.value = digitsValue (significantDigits x.coefficient) *
      10 ^ ((Nat.toDigits 10 x.coefficient).length - 1 + x.exponent + 1 -
        (significantDigits x.coefficient).length) := by
  obtain ⟨zeros, hzeros⟩ := toDigits_eq_significantDigits x.coefficient
  have hcoefficient : (x.coefficient : ℚ) =
      digitsValue (significantDigits x.coefficient) * 10 ^ (zeros : Int) := by
    have hnat := digitsValue_toDigits x.coefficient
    rw [hzeros, digitsValue_append, digitsValue_replicate_zero, List.length_replicate] at hnat
    rw [zpow_natCast, mul_comm]
    exact_mod_cast hnat.symm
  have hlength := congrArg List.length hzeros
  rw [List.length_append, List.length_replicate] at hlength
  rw [Decimal.value, hcoefficient, mul_assoc, ← zpow_add₀ (by norm_num), hlength]
  congr 2
  push_cast
  omega

end Layout

/-! ## Numerals -/

def exponentText : Option Int → List Char
  | none => []
  | some e => 'e' :: (toString e).toList

/-- A text of digits with a point among them, or an exponent behind them, that stands for `x`. -/
inductive Numeral : List Char → ℚ → Prop
  | point {whole fraction : List Char} {x : ℚ} (e : Option Int) (hwhole : whole ≠ [])
      (hdigits : ∀ c ∈ whole ++ fraction, c.isDigit)
      (hx : x = digitsValue (whole ++ fraction) * 10 ^ (e.getD 0 - fraction.length)) :
      Numeral (whole ++ '.' :: (fraction ++ exponentText e)) x
  | plain {whole : List Char} {x : ℚ} (e : Int) (hwhole : whole ≠ [])
      (hdigits : ∀ c ∈ whole, c.isDigit) (hx : x = digitsValue whole * 10 ^ e) :
      Numeral (whole ++ exponentText (some e)) x

namespace Double

theorem readExponent?_digits {digits : List Char} (hne : digits ≠ [])
    (hdigits : ∀ c ∈ digits, c.isDigit) :
    readExponent? ('e' :: digits) = some (digitsValue digits : Int) ∧
      readExponent? ('e' :: '-' :: digits) = some (-(digitsValue digits : Int)) := by
  have hall : digits.all Char.isDigit := by simpa using hdigits
  obtain ⟨c, cs, rfl⟩ := List.exists_cons_of_ne_nil hne
  have hc : c.isDigit := hdigits c List.mem_cons_self
  have hminus : c ≠ '-' := by
    rintro rfl
    exact absurd hc (by decide)
  have hplus : c ≠ '+' := by
    rintro rfl
    exact absurd hc (by decide)
  constructor
  · simp [readExponent?, hall, hminus, hplus]
  · simp [readExponent?, hall]

theorem readExponent?_exponentText (e : Option Int) :
    readExponent? (exponentText e) = some (e.getD 0) := by
  cases e with
  | none => rfl
  | some e =>
      have hread := readExponent?_digits (Nat.toDigits_ne_nil (n := e.natAbs) (b := 10))
        isDigit_of_mem_toDigits
      rw [digitsValue_toDigits] at hread
      rw [exponentText, toList_toString, Option.getD_some]
      split
      · rw [hread.2]
        congr 1
        omega
      · rw [hread.1]
        congr 1
        omega

theorem takeWhile_isDigit_exponentText (e : Option Int) :
    (exponentText e).takeWhile Char.isDigit = [] := by
  cases e <;> rfl

theorem span_isDigit_append {digits rest : List Char} (hdigits : ∀ c ∈ digits, c.isDigit)
    (hrest : rest.takeWhile Char.isDigit = []) :
    (digits ++ rest).takeWhile Char.isDigit = digits ∧
      (digits ++ rest).dropWhile Char.isDigit = rest := by
  have htake : (digits ++ rest).takeWhile Char.isDigit = digits := by
    rw [List.takeWhile_append_of_pos hdigits, hrest, List.append_nil]
  have hsplit := List.takeWhile_append_dropWhile (p := Char.isDigit) (l := digits ++ rest)
  rw [htake] at hsplit
  exact ⟨htake, List.append_cancel_left hsplit⟩

theorem readDecimal?_of_numeral {text : List Char} {x : ℚ} (h : Numeral text x) :
    ∃ y, readDecimal? text = some y ∧ y.value = x := by
  cases h with
  | @point whole fraction x e hwhole hdigits hx =>
      obtain ⟨hwhole_digits, hfraction⟩ := List.forall_mem_append.1 hdigits
      have hpoint : ('.' :: (fraction ++ exponentText e)).takeWhile Char.isDigit = [] := rfl
      have houter := span_isDigit_append hwhole_digits hpoint
      have hinner := span_isDigit_append hfraction (takeWhile_isDigit_exponentText e)
      refine ⟨⟨digitsValue (whole ++ fraction), e.getD 0 - fraction.length⟩, ?_, hx.symm⟩
      simp [readDecimal?, houter, hinner, hwhole, readExponent?_exponentText]
  | @plain whole x e hwhole hdigits hx =>
      have hread := readExponent?_exponentText (some e)
      have houter := span_isDigit_append hdigits (takeWhile_isDigit_exponentText (some e))
      obtain ⟨cs, hcs⟩ : ∃ cs, exponentText (some e) = 'e' :: cs := ⟨_, rfl⟩
      rw [hcs] at hread houter ⊢
      refine ⟨⟨digitsValue whole, e⟩, ?_, hx.symm⟩
      simp [readDecimal?, houter, hwhole, hread]

end Double

namespace Layout

section

variable {digits : List Char} {e : Int} {x : ℚ} (hne : digits ≠ [])
  (hdigits : ∀ c ∈ digits, c.isDigit)
  (hx : x = digitsValue digits * 10 ^ (e + 1 - digits.length))

include hne hdigits hx

theorem numeral_withPoint : Numeral (literal.withPoint digits e) x := by
  simp only [withPoint]
  split
  · -- a number below one: zeros stand between the point and the digits
    have hnumeral : Numeral (['0'] ++ '.' ::
        ((List.replicate (-e - 1).toNat '0' ++ digits) ++ exponentText none)) x := by
      refine .point none (by simp) ?_ ?_
      · exact List.forall_mem_append.2 ⟨isDigit_of_mem_replicate_zero (n := 1),
          List.forall_mem_append.2 ⟨isDigit_of_mem_replicate_zero, hdigits⟩⟩
      · have hvalue : digitsValue (['0'] ++ (List.replicate (-e - 1).toNat '0' ++ digits)) =
            digitsValue digits := by
          have hzero : digitsValue ['0'] = 0 := rfl
          simp only [digitsValue_append, digitsValue_replicate_zero, hzero, Nat.mul_zero,
            Nat.zero_add]
        rw [hx, hvalue]
        congr 2
        simp only [Option.getD_none, List.length_append, List.length_replicate]
        omega
    simpa [exponentText] using hnumeral
  · split
    · -- a whole number: zeros fill it up to the point
      have hnumeral : Numeral (digits ++ List.replicate (e.toNat + 1 - digits.length) '0' ++ '.' ::
          (['0'] ++ exponentText none)) x := by
        refine .point none (by simp [hne]) ?_ ?_
        · exact List.forall_mem_append.2 ⟨List.forall_mem_append.2
            ⟨hdigits, isDigit_of_mem_replicate_zero⟩, isDigit_of_mem_replicate_zero (n := 1)⟩
        · have hzero : digitsValue ['0'] = 0 := rfl
          have hplaces : e + 1 - digits.length = ((e.toNat + 1 - digits.length : Nat) : Int) := by
            omega
          rw [hx, digitsValue_append, digitsValue_append, digitsValue_replicate_zero, hzero,
            hplaces, zpow_natCast, List.length_replicate]
          push_cast
          rw [Option.getD_none, List.length_singleton, Nat.cast_one, zero_sub, zpow_neg_one]
          ring
      simpa [exponentText, literal] using hnumeral
    · -- the point stands among the digits
      have hnumeral : Numeral (digits.take (e.toNat + 1) ++ '.' ::
          (digits.drop (e.toNat + 1) ++ exponentText none)) x := by
        refine .point none (by simp [hne]) ?_ ?_
        · rwa [List.take_append_drop]
        · rw [List.take_append_drop, hx]
          congr 2
          simp only [Option.getD_none, List.length_drop]
          omega
      simpa [exponentText] using hnumeral

theorem numeral_withExponent : Numeral (withExponent digits e) x := by
  obtain ⟨c, cs, rfl⟩ := List.exists_cons_of_ne_nil hne
  cases cs with
  | nil =>
      have hnumeral : Numeral ([c] ++ exponentText (some e)) x := by
        refine .plain e hne hdigits ?_
        rw [hx]
        congr 2
        simp
      exact hnumeral
  | cons c' cs =>
      have hnumeral : Numeral ([c] ++ '.' :: ((c' :: cs) ++ exponentText (some e))) x := by
        refine .point (some e) (by simp) hdigits ?_
        rw [hx]
        congr 2
        simp only [Option.getD_some, List.length_cons]
        omega
      simpa [withExponent, exponentText] using hnumeral

end

theorem numeral_decimal (x : Decimal) : Numeral (literal.decimal x) x.value := by
  have hne := significantDigits_ne_nil x.coefficient
  have hdigits := fun c ↦ isDigit_of_mem_significantDigits (n := x.coefficient) (c := c)
  simp only [decimal]
  split
  · exact numeral_withPoint hne hdigits (value_eq x)
  · exact numeral_withExponent hne hdigits (value_eq x)

end Layout

/-! ## Texts -/

namespace Double

variable {d d' : Double}

theorem shortest_neg (d : Double) : d.neg.shortest = d.shortest := by
  have hbiased : d.neg.biasedExponent = d.biasedExponent := by
    rw [biasedExponent, magnitudeBits_neg, biasedExponent]
  have hfraction : d.neg.fraction = d.fraction := by
    rw [fraction, magnitudeBits_neg, fraction]
  have hsignificand : d.neg.significand = d.significand := by
    rw [significand, hbiased, hfraction, significand]
  have hexponent : d.neg.exponent = d.exponent := by
    rw [exponent, hbiased, exponent]
  have hbracket : d.neg.bracket = d.bracket := by
    rw [bracket, hsignificand, hexponent, hbiased, hfraction, bracket]
  rw [shortest, shortest, magnitudeBits_neg, hbracket]

theorem toList_text (h : d.isFinite) :
    d.text.toList =
      if d.isNegative then '-' :: Layout.literal.decimal d.shortest
      else Layout.literal.decimal d.shortest := by
  have hnan : d.isNaN = false := by
    simp only [isFinite, bne_iff_ne] at h
    simp [isNaN, h]
  rw [text, Layout.render, hnan, if_neg Bool.false_ne_true, if_pos h, String.toList_ofList]

theorem toList_text_of_isNegative (h : d.isFinite) (hsign : d.isNegative) :
    d.text.toList = '-' :: d.neg.text.toList := by
  rw [toList_text h, if_pos hsign, toList_text (by rwa [isFinite_neg]), shortest_neg,
    isNegative_neg, hsign, Bool.not_true, if_neg Bool.false_ne_true]

theorem numeral_text (h : d.isFinite) (hsign : d.isNegative = false) :
    Numeral d.text.toList d.shortest.value := by
  rw [toList_text h, hsign, if_neg Bool.false_ne_true]
  exact Layout.numeral_decimal d.shortest

/-- The text of a number without a sign tells which double it is. -/
theorem eq_of_text_eq (h : d.isFinite) (h' : d'.isFinite) (hsign : d.isNegative = false)
    (hsign' : d'.isNegative = false) (htext : d.text.toList = d'.text.toList) : d = d' := by
  obtain ⟨x, hread, hx⟩ := readDecimal?_of_numeral (numeral_text h hsign)
  obtain ⟨y, hread', hy⟩ := readDecimal?_of_numeral (numeral_text h' hsign')
  rw [htext, hread'] at hread
  cases hread
  exact eq_of_magnitudeBits (magnitudeBits_eq_of_shortest (hx.symm.trans hy))
    (hsign.trans hsign'.symm)

end Double

namespace Numeral

variable {text : List Char} {x : ℚ}

theorem exists_cons (h : Numeral text x) : ∃ c cs, text = c :: cs ∧ c.isDigit := by
  cases h with
  | @point whole fraction x e hwhole hdigits hx =>
      obtain ⟨c, cs, rfl⟩ := List.exists_cons_of_ne_nil hwhole
      exact ⟨c, _, rfl, hdigits c List.mem_cons_self⟩
  | @plain whole x e hwhole hdigits hx =>
      obtain ⟨c, cs, rfl⟩ := List.exists_cons_of_ne_nil hwhole
      exact ⟨c, _, rfl, hdigits c List.mem_cons_self⟩

/-- A numeral is never mistaken for a whole number. -/
theorem exists_not_isDigit (h : Numeral text x) : ∃ c ∈ text, c.isDigit = false := by
  cases h with
  | point => exact ⟨'.', by simp, by decide⟩
  | plain => exact ⟨'e', by simp [exponentText], by decide⟩

theorem isDigit_or_mem (h : Numeral text x) : ∀ c ∈ text, c.isDigit ∨ c ∈ ['.', 'e', '-'] := by
  have hexponent (e : Option Int) : ∀ c ∈ exponentText e, c.isDigit ∨ c ∈ ['.', 'e', '-'] := by
    intro c hc
    cases e with
    | none => cases hc
    | some e =>
        rw [exponentText, toList_toString] at hc
        rcases List.mem_cons.1 hc with rfl | hc
        · exact .inr (by decide)
        · split at hc
          · rcases List.mem_cons.1 hc with rfl | hc
            · exact .inr (by decide)
            · exact .inl (isDigit_of_mem_toDigits c hc)
          · exact .inl (isDigit_of_mem_toDigits c hc)
  intro c hc
  cases h with
  | @point whole fraction x e hwhole hdigits hx =>
      rcases List.mem_append.1 hc with hc | hc
      · exact .inl (hdigits c (List.mem_append_left _ hc))
      · rcases List.mem_cons.1 hc with rfl | hc
        · exact .inr (by decide)
        · rcases List.mem_append.1 hc with hc | hc
          · exact .inl (hdigits c (List.mem_append_right _ hc))
          · exact hexponent e c hc
  | @plain whole x e hwhole hdigits hx =>
      rcases List.mem_append.1 hc with hc | hc
      · exact .inl (hdigits c hc)
      · exact hexponent (some e) c hc

end Numeral
end Barista
