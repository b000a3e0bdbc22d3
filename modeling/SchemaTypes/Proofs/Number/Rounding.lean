import Mathlib.Algebra.Order.Field.Power
import Mathlib.Data.Rat.Cast.Order
import Mathlib.Tactic.FieldSimp
import Mathlib.Tactic.Positivity
import Mathlib.Tactic.Ring
import SchemaTypes.Number.Shortest

namespace SchemaTypes

/-- Rounding a quotient does not depend on how it is written. -/
theorem roundDiv_mul_right {num den k : Nat} (hk : 0 < k) :
    roundDiv (num * k) (den * k) = roundDiv num den := by
  have hquotient : num * k / (den * k) = num / den := Nat.mul_div_mul_right num den hk
  have htwice : 2 * (num * k % (den * k)) = 2 * (num % den) * k := by
    rw [Nat.mul_mod_mul_right, Nat.mul_assoc]
  have hlt : 2 * (num % den) * k < den * k ↔ 2 * (num % den) < den := Nat.mul_lt_mul_right hk
  have hgt : den * k < 2 * (num % den) * k ↔ den < 2 * (num % den) := Nat.mul_lt_mul_right hk
  simp only [roundDiv, hquotient, htwice, hlt, hgt]

/-- A quotient that is an integer is rounded to itself. -/
theorem roundDiv_mul_self {num den : Nat} (hden : 0 < den) : roundDiv (num * den) den = num := by
  simp [roundDiv, Nat.mul_div_cancel _ hden, hden]

theorem roundDiv_cases (num den : Nat) :
    roundDiv num den = num / den ∨ roundDiv num den = num / den + 1 := by
  simp only [roundDiv]
  split_ifs <;> simp

section Unscale

variable {base : Nat}

theorem unscale_den_pos (num : Nat) {den : Nat} (hbase : 0 < base) (hden : 0 < den) (power : Int) :
    0 < (unscale base num den power).2 :=
  Nat.mul_pos hden (Nat.pow_pos hbase)

theorem unscale_mul_right (num den k : Nat) (power : Int) :
    unscale base (num * k) (den * k) power =
      ((unscale base num den power).1 * k, (unscale base num den power).2 * k) := by
  simp only [unscale, Prod.mk.injEq]
  constructor <;> ring

theorem zpow_eq_pow_toNat_div (hbase : 0 < base) (power : Int) :
    (base : ℚ) ^ power = (base : ℚ) ^ power.toNat / (base : ℚ) ^ (-power).toNat := by
  have hne : (base : ℚ) ≠ 0 := by positivity
  rcases Int.le_total 0 power with h | h
  · obtain ⟨n, rfl⟩ := Int.eq_ofNat_of_zero_le h
    simp
  · obtain ⟨n, hn⟩ := Int.eq_ofNat_of_zero_le (Int.neg_nonneg.mpr h)
    obtain rfl : power = -(n : Int) := by omega
    simp

/-- Taking a power out of a quotient divides it by that power, whichever of the
    two parts the power is put into. -/
theorem unscale_ratio (num den : Nat) (hbase : 0 < base) (power : Int) :
    ((unscale base num den power).1 : ℚ) / (unscale base num den power).2 =
      num / den / (base : ℚ) ^ power := by
  have hne : (base : ℚ) ≠ 0 := by positivity
  rw [zpow_eq_pow_toNat_div hbase]
  simp only [unscale, Nat.pow_eq, Nat.cast_mul, Nat.cast_pow]
  field_simp

end Unscale

/-- A number lies between two neighbouring powers of two in one way only, so that
    it is enough to find one exponent that fits. -/
theorem exponent_unique {q : ℚ} {e f : Int} (hle : (2 : ℚ) ^ e ≤ q) (hlt : q < (2 : ℚ) ^ (e + 1))
    (hle' : (2 : ℚ) ^ f ≤ q) (hlt' : q < (2 : ℚ) ^ (f + 1)) : e = f := by
  have hef : e < f + 1 := (zpow_lt_zpow_iff_right₀ one_lt_two).mp (hle.trans_lt hlt')
  have hfe : f < e + 1 := (zpow_lt_zpow_iff_right₀ one_lt_two).mp (hle'.trans_lt hlt)
  omega

/-- The bit lengths of the two parts of a quotient fix its binary logarithm up to one. -/
theorem ratio_bounds {num den : Nat} (hnum : 0 < num) (hden : 0 < den) :
    (2 : ℚ) ^ ((num.log2 : Int) - den.log2 - 1) ≤ num / den ∧
      (num : ℚ) / den < 2 ^ ((num.log2 : Int) - den.log2 + 1) := by
  have hnumLow : (2 : ℚ) ^ (num.log2 : Int) ≤ num := by
    exact_mod_cast Nat.log2_self_le (Nat.pos_iff_ne_zero.mp hnum)
  have hnumHigh : (num : ℚ) < 2 ^ ((num.log2 : Int) + 1) := by exact_mod_cast Nat.lt_log2_self
  have hdenLow : (2 : ℚ) ^ (den.log2 : Int) ≤ den := by
    exact_mod_cast Nat.log2_self_le (Nat.pos_iff_ne_zero.mp hden)
  have hdenHigh : (den : ℚ) < 2 ^ ((den.log2 : Int) + 1) := by exact_mod_cast Nat.lt_log2_self
  have hdenPos : (0 : ℚ) < den := by exact_mod_cast hden
  constructor
  · rw [le_div_iff₀ hdenPos]
    calc (2 : ℚ) ^ ((num.log2 : Int) - den.log2 - 1) * den
        ≤ 2 ^ ((num.log2 : Int) - den.log2 - 1) * 2 ^ ((den.log2 : Int) + 1) := by gcongr
      _ = 2 ^ (num.log2 : Int) := by rw [← zpow_add₀ two_ne_zero]; congr 1; omega
      _ ≤ num := hnumLow
  · rw [div_lt_iff₀ hdenPos]
    calc (num : ℚ) < 2 ^ ((num.log2 : Int) + 1) := hnumHigh
      _ = 2 ^ ((num.log2 : Int) - den.log2 + 1) * 2 ^ (den.log2 : Int) := by
          rw [← zpow_add₀ two_ne_zero]; congr 1; omega
      _ ≤ 2 ^ ((num.log2 : Int) - den.log2 + 1) * den := by gcongr

/-- The bit lengths alone fix the exponent up to one, and the comparison finds the
    right one. All that is used of the logarithm is said here. -/
theorem ratioLog2_spec {num den : Nat} (hnum : 0 < num) (hden : 0 < den) :
    (2 : ℚ) ^ ratioLog2 num den ≤ num / den ∧ (num : ℚ) / den < 2 ^ (ratioLog2 num den + 1) := by
  obtain ⟨hlow, hhigh⟩ := ratio_bounds hnum hden
  simp only [ratioLog2]
  generalize (num.log2 : Int) - den.log2 = guess at hlow hhigh
  have hratio := unscale_ratio num den two_pos guess
  have hunit := unscale_den_pos num two_pos hden guess
  have hcompare : (unscale 2 num den guess).2 ≤ (unscale 2 num den guess).1 ↔
      (2 : ℚ) ^ guess ≤ num / den := by
    have hunit' : (0 : ℚ) < (unscale 2 num den guess).2 := by exact_mod_cast hunit
    rw [← one_le_div (by positivity : (0 : ℚ) < 2 ^ guess), ← Nat.cast_two (R := ℚ), ← hratio,
      one_le_div hunit', Nat.cast_le]
  split
  next hle => exact ⟨hcompare.mp hle, hhigh⟩
  next hlt =>
    rw [hcompare, not_le] at hlt
    exact ⟨hlow, by simpa using hlt⟩

/-- Whatever exponent encloses a quotient is the one that is found for it. -/
theorem ratioLog2_eq {num den : Nat} (hnum : 0 < num) (hden : 0 < den) {e : Int}
    (hlow : (2 : ℚ) ^ e ≤ num / den) (hhigh : (num : ℚ) / den < 2 ^ (e + 1)) :
    ratioLog2 num den = e := by
  obtain ⟨hle, hlt⟩ := ratioLog2_spec hnum hden
  exact exponent_unique hle hlt hlow hhigh

theorem ratioLog2_mul_right {num den k : Nat} (hnum : 0 < num) (hden : 0 < den) (hk : 0 < k) :
    ratioLog2 (num * k) (den * k) = ratioLog2 num den := by
  have hratio : ((num * k : Nat) : ℚ) / (den * k : Nat) = num / den := by
    push_cast
    rw [mul_div_mul_right]
    positivity
  obtain ⟨hlow, hhigh⟩ := ratioLog2_spec hnum hden
  rw [← hratio] at hlow hhigh
  exact ratioLog2_eq (Nat.mul_pos hnum hk) (Nat.mul_pos hden hk) hlow hhigh

namespace Double

theorem ofRatio?_mul_right {negative : Bool} {num den k : Nat} (hden : 0 < den) (hk : 0 < k) :
    ofRatio? negative (num * k) (den * k) = ofRatio? negative num den := by
  rcases Nat.eq_zero_or_pos num with rfl | hnum
  · simp [ofRatio?]
  · have hne : num * k ≠ 0 := (Nat.mul_pos hnum hk).ne'
    simp only [ofRatio?, hne, hnum.ne', if_false, ratioLog2_mul_right hnum hden hk,
      unscale_mul_right, roundDiv_mul_right hk]

/-- Rounding looks at the quotient only, not at how it is written as a fraction.
    Decimals of the same value are thus read as the same double. -/
theorem ofRatio?_congr {negative : Bool} {num den num' den' : Nat} (hden : 0 < den)
    (hden' : 0 < den') (h : num * den' = num' * den) :
    ofRatio? negative num den = ofRatio? negative num' den' := by
  rw [← ofRatio?_mul_right hden hden', h, Nat.mul_comm den, ofRatio?_mul_right hden' hden]

theorem magnitude_den_pos (x : Double) : 0 < x.magnitude.2 :=
  unscale_den_pos x.mantissa two_pos one_pos _

/-- The magnitude of a double, written as a fraction, has the value that the
    mantissa and the exponent give it. -/
theorem magnitude_ratio (x : Double) :
    (x.magnitude.1 : ℚ) / x.magnitude.2 = x.mantissa * 2 ^ x.exponent := by
  rw [magnitude, unscale_ratio x.mantissa 1 two_pos]
  simp [zpow_neg, div_eq_mul_inv]

/-- The exponent found for the magnitude of a double is its own. For the smallest
    doubles it is the least one, whatever their leading bit is. -/
theorem exponent_eq (x : Double) (hpos : 0 < x.mantissa) :
    max (-1074) (ratioLog2 x.magnitude.1 x.magnitude.2 - 52) = x.exponent := by
  have hlog : ratioLog2 x.magnitude.1 x.magnitude.2 = x.mantissa.log2 + x.exponent := by
    have hnum : 0 < x.magnitude.1 := Nat.mul_pos hpos (Nat.pow_pos two_pos)
    apply ratioLog2_eq hnum x.magnitude_den_pos
    · rw [magnitude_ratio, zpow_add₀ two_ne_zero]
      gcongr
      exact_mod_cast Nat.log2_self_le (Nat.pos_iff_ne_zero.mp hpos)
    · rw [magnitude_ratio, add_right_comm, zpow_add₀ two_ne_zero]
      gcongr
      exact_mod_cast Nat.lt_log2_self
  have hhigh : x.mantissa.log2 ≤ 52 := by
    have hlt := x.mantissa_lt
    rw [Nat.one_shiftLeft, ← Nat.log2_lt (Nat.pos_iff_ne_zero.mp hpos)] at hlt
    omega
  rcases x.normal with hleast | hnormal
  · omega
  · rw [Nat.one_shiftLeft, ← Nat.le_log2 (Nat.pos_iff_ne_zero.mp hpos)] at hnormal
    have := x.exponent_ge
    omega

/-- A number that is a double is rounded to itself. Nothing is lost in rounding,
    since the exponent and with it the grid are those of the double. -/
theorem ofRatio?_magnitude (x : Double) (hpos : 0 < x.mantissa) :
    ofRatio? x.negative x.magnitude.1 x.magnitude.2 = some x := by
  have hnum : x.magnitude.1 ≠ 0 := (Nat.mul_pos hpos (Nat.pow_pos two_pos)).ne'
  have hmantissa : roundDiv (unscale 2 x.magnitude.1 x.magnitude.2 x.exponent).1
      (unscale 2 x.magnitude.1 x.magnitude.2 x.exponent).2 = x.mantissa := by
    have hscaled : (unscale 2 x.magnitude.1 x.magnitude.2 x.exponent).1 =
        x.mantissa * (unscale 2 x.magnitude.1 x.magnitude.2 x.exponent).2 := by
      simp only [magnitude, unscale, neg_neg]
      ring
    rw [hscaled]
    exact roundDiv_mul_self (unscale_den_pos _ two_pos x.magnitude_den_pos _)
  have hlt := x.mantissa_lt
  simp only [ofRatio?, hnum, if_false, exponent_eq x hpos, hmantissa, hlt.ne]
  rw [ofParts?, dif_pos ⟨x.mantissa_lt, x.exponent_ge, x.exponent_le, x.normal⟩]

theorem eq_zero_of_isZero {x : Double} (h : x.isZero = true) : x = zero x.negative := by
  have hmantissa : x.mantissa = 0 := by simpa [isZero] using h
  have hexponent : x.exponent = -1074 := by
    rcases x.normal with hleast | hnormal
    · exact hleast
    · omega
  cases x
  simp_all [zero]

end Double

namespace Decimal

/-- A decimal is taken for a double only after it has been read back. -/
theorem readsBack_of_onGrid? {x : Double} {power : Int} {d : Decimal} (h : onGrid? x power = some d) :
    d.readsBack x = true := by
  simp only [onGrid?] at h
  split at h
  next hbelow habove =>
    cases h
    rcases roundDiv_cases (unscale 10 x.magnitude.1 x.magnitude.2 power).1
      (unscale 10 x.magnitude.1 x.magnitude.2 power).2 with heq | heq
    · rw [heq]
      exact hbelow
    · rw [heq]
      exact habove
  next hbelow _ =>
    cases h
    exact hbelow
  next _ habove =>
    cases h
    exact habove
  next => cases h

/-- The exact decimal of a double, which every double has, is read back. It is
    what remains when no shorter one is. -/
theorem readsBack_exact (x : Double) (hpos : 0 < x.mantissa) : (exact x).readsBack x = true := by
  rw [readsBack, beq_iff_eq, ← Double.ofRatio?_magnitude x hpos, Double.ofDecimal?]
  apply Double.ofRatio?_congr (Nat.pow_pos (by decide)) x.magnitude_den_pos
  simp only [exact, Double.magnitude, unscale, Nat.pow_eq, neg_neg]
  split
  next hexponent =>
    have : (-x.exponent).toNat = 0 := by omega
    simp [this]
  next hexponent =>
    have : x.exponent.toNat = 0 := by omega
    simp only [this, pow_zero, mul_one, one_mul, mul_assoc, ← mul_pow, Nat.reduceMul]

/-- The shortest decimal of a double reads back as the double, sign and all, with
    a single rounding. -/
theorem readsBack_shortest (x : Double) : (shortest x).readsBack x = true := by
  unfold shortest
  split
  next hzero =>
    rw [Double.eq_zero_of_isZero hzero]
    simp [readsBack, Double.ofDecimal?, Double.ofRatio?, Double.zero]
  next hzero =>
    have hpos : 0 < x.mantissa := by simpa [Double.isZero, Nat.pos_iff_ne_zero] using hzero
    cases hfound : (List.range 20).findSome? fun (step : Nat) => onGrid? x (powerAbove x - step) with
    | none => exact readsBack_exact x hpos
    | some d =>
      obtain ⟨step, _, hstep⟩ := List.exists_of_findSome?_eq_some hfound
      exact readsBack_of_onGrid? hstep

/-- The exact value of a decimal number. -/
def toRat (d : Decimal) : ℚ := d.coefficient * 10 ^ d.power

/-- Of two decimals with the same value both read back as a double or neither does. -/
theorem ofDecimal?_congr {negative : Bool} {c d : Decimal} (h : c.toRat = d.toRat) :
    Double.ofDecimal? negative c.coefficient c.power =
      Double.ofDecimal? negative d.coefficient d.power := by
  have hten : (10 : ℚ) = ((10 : Nat) : ℚ) := by norm_num
  rw [toRat, toRat, hten, zpow_eq_pow_toNat_div (by decide), zpow_eq_pow_toNat_div (by decide),
    mul_div_assoc', mul_div_assoc', div_eq_div_iff (by positivity) (by positivity)] at h
  apply Double.ofRatio?_congr (Nat.pow_pos (by decide)) (Nat.pow_pos (by decide))
  exact_mod_cast h

/-- A double is determined by its sign and the value of its shortest decimal. The
    sign tells the two zeros apart. -/
theorem shortest_inj {x y : Double} (hsign : x.negative = y.negative)
    (hvalue : (shortest x).toRat = (shortest y).toRat) : x = y := by
  have hx := readsBack_shortest x
  have hy := readsBack_shortest y
  rw [readsBack, beq_iff_eq] at hx hy
  rw [hsign, ofDecimal?_congr hvalue, hy] at hx
  exact (Option.some.inj hx).symm

end Decimal

end SchemaTypes
