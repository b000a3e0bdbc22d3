import SchemaTypes.Proofs.Json.Equality
import SchemaTypes.Proofs.Number.Rounding

namespace SchemaTypes

namespace Double

variable {x y : Double}

/-- The exact value of a double. -/
def toRat (x : Double) : ℚ :=
  if x.negative then -(x.mantissa * 2 ^ x.exponent) else x.mantissa * 2 ^ x.exponent

theorem isZero_iff : x.isZero = true ↔ x.mantissa = 0 := by simp [isZero]

theorem mantissa_pos (h : x.isZero = false) : 0 < x.mantissa := by
  simpa [isZero, Nat.pos_iff_ne_zero] using h

/-- Both zeros have the value zero, and no other double has. -/
theorem toRat_eq_zero_iff : x.toRat = 0 ↔ x.isZero = true := by
  have hpower : (2 : ℚ) ^ x.exponent ≠ 0 := by positivity
  rw [isZero_iff, toRat]
  split <;> simp [hpower]

theorem negative_iff (h : x.isZero = false) : x.negative = true ↔ x.toRat < 0 := by
  have hpos : (0 : ℚ) < x.mantissa * 2 ^ x.exponent := by
    have := mantissa_pos h
    positivity
  unfold toRat
  split
  next hneg => simp [hneg, hpos]
  next hneg => simp [hneg, hpos.le]

/-- The value of a double up to its sign is its magnitude. -/
theorem abs_toRat (x : Double) : |x.toRat| = x.magnitude.1 / x.magnitude.2 := by
  have hnonneg : (0 : ℚ) ≤ x.mantissa * 2 ^ x.exponent := by positivity
  rw [magnitude_ratio]
  unfold toRat
  split
  · rw [abs_neg, abs_of_nonneg hnonneg]
  · rw [abs_of_nonneg hnonneg]

/-- A quotient that is the value of a double is rounded to that double, however it
    is written as a fraction. -/
theorem ofRatio?_eq_some (hx : x.isZero = false) {num den : Nat} (hden : 0 < den)
    (h : |x.toRat| = num / den) : ofRatio? x.negative num den = some x := by
  rw [← ofRatio?_magnitude x (mantissa_pos hx)]
  have hunit := x.magnitude_den_pos
  apply ofRatio?_congr hden hunit
  rw [abs_toRat, div_eq_div_iff (by positivity) (by positivity)] at h
  exact_mod_cast h.symm

/-- Doubles have the same value only if they are the same or are the two zeros, so
    that the comparison by parts is one by value. -/
theorem sameValue_iff_toRat_eq : x.sameValue y = true ↔ x.toRat = y.toRat := by
  rw [sameValue_iff]
  constructor
  · rintro (rfl | ⟨hx, hy⟩)
    · rfl
    · rw [toRat_eq_zero_iff.mpr hx, toRat_eq_zero_iff.mpr hy]
  · intro h
    have hzero : x.isZero = y.isZero := by
      rw [Bool.eq_iff_iff, ← toRat_eq_zero_iff, ← toRat_eq_zero_iff, h]
    cases hx : x.isZero with
    | true => exact .inr ⟨rfl, hzero ▸ hx⟩
    | false =>
      have hy : y.isZero = false := hzero ▸ hx
      have hsign : x.negative = y.negative := by
        rw [Bool.eq_iff_iff, negative_iff hx, negative_iff hy, h]
      have hround := ofRatio?_eq_some hx y.magnitude_den_pos (by rw [h, abs_toRat])
      rw [hsign, ofRatio?_magnitude y (mantissa_pos hy)] at hround
      exact .inl (Option.some.inj hround).symm

/-- An integer that is the value of a double is rounded to a double of that value,
    which for zero may differ in its sign. -/
theorem toRat_of_ofInt? {n : Int} (h : x.toRat = n) : ∃ y, ofInt? n = some y ∧ y.toRat = n := by
  cases hx : x.isZero with
  | true =>
    have hn : n = 0 := by
      rw [toRat_eq_zero_iff.mpr hx] at h
      exact_mod_cast h.symm
    subst hn
    exact ⟨zero false, rfl, by simp [toRat, zero]⟩
  | false =>
    have hsign : decide (n < 0) = x.negative := by
      rw [Bool.eq_iff_iff, negative_iff hx, h, decide_eq_true_iff, Int.cast_lt_zero]
    refine ⟨x, ?_, h⟩
    rw [ofInt?, hsign]
    apply ofRatio?_eq_some hx one_pos
    rw [h, Nat.cast_one, div_one, Nat.cast_natAbs, Int.cast_abs]

/-- Integers that fit the mantissa are magnitudes of doubles: shifted until the
    leading bit is in its place. -/
theorem exists_magnitude_eq {k : Nat} (hpos : 0 < k) (h : k < 1 <<< 53) (negative : Bool) :
    ∃ x : Double, x.negative = negative ∧ (x.mantissa : ℚ) * 2 ^ x.exponent = k := by
  rw [Nat.one_shiftLeft] at h
  have hlog : k.log2 ≤ 52 := Nat.lt_succ_iff.mp ((Nat.log2_lt hpos.ne').mpr h)
  -- The integer is moved up until its first bit is the first one of the mantissa.
  have hhigh : k * 2 ^ (52 - k.log2) < 2 ^ 53 := by
    calc k * 2 ^ (52 - k.log2) < 2 ^ (k.log2 + 1) * 2 ^ (52 - k.log2) :=
          Nat.mul_lt_mul_of_pos_right Nat.lt_log2_self (Nat.two_pow_pos _)
      _ = 2 ^ 53 := by rw [← pow_add]; congr 1; omega
  have hlow : 2 ^ 52 ≤ k * 2 ^ (52 - k.log2) := by
    calc 2 ^ 52 = 2 ^ k.log2 * 2 ^ (52 - k.log2) := by rw [← pow_add]; congr 1; omega
      _ ≤ k * 2 ^ (52 - k.log2) := Nat.mul_le_mul_right _ (Nat.log2_self_le hpos.ne')
  refine ⟨⟨negative, k * 2 ^ (52 - k.log2), -((52 - k.log2 : Nat) : Int), ?_, by omega, by omega,
    .inr ?_⟩, rfl, ?_⟩
  · rwa [Nat.one_shiftLeft]
  · rwa [Nat.one_shiftLeft]
  · push_cast
    rw [zpow_neg, zpow_natCast, mul_inv_cancel_right₀ (by positivity)]

/-- Integers of at most 53 bits are doubles. -/
theorem exists_toRat_eq {n : Int} (h : n.natAbs < 1 <<< 53) : ∃ x : Double, x.toRat = n := by
  rcases Nat.eq_zero_or_pos n.natAbs with hzero | hpos
  · rw [Int.natAbs_eq_zero] at hzero
    exact ⟨zero false, by simp [toRat, zero, hzero]⟩
  · obtain ⟨x, hsign, hvalue⟩ := exists_magnitude_eq hpos h (decide (n < 0))
    refine ⟨x, ?_⟩
    rw [toRat, hsign, hvalue, Nat.cast_natAbs, Int.cast_abs]
    split
    next hneg =>
      have hneg : (n : ℚ) < 0 := by exact_mod_cast of_decide_eq_true hneg
      rw [abs_of_neg hneg, neg_neg]
    next hneg =>
      have hnonneg : (0 : ℚ) ≤ n := by
        rw [decide_eq_true_iff, not_lt] at hneg
        exact_mod_cast hneg
      rw [abs_of_nonneg hnonneg]

end Double

namespace Number

/-- The exact value of a number. -/
def toRat : Number → ℚ
  | .int n => n
  | .float x => x.toRat

/-- Two numbers are nearest to doubles of the same value. -/
def SameNearest (a b : Number) : Prop :=
  ∃ x y, a.toDouble? = some x ∧ b.toDouble? = some y ∧ x.toRat = y.toRat

/-- The value of the number is that of a double. -/
def IsDouble (a : Number) : Prop := ∃ x : Double, x.toRat = a.toRat

variable {a b : Number}

/-- A number that is a double keeps its value when it is turned into one. -/
theorem IsDouble.toDouble? (h : a.IsDouble) : ∃ x, a.toDouble? = some x ∧ x.toRat = a.toRat := by
  cases a with
  | int n =>
    obtain ⟨x, hx⟩ := h
    exact Double.toRat_of_ofInt? hx
  | float x => exact ⟨x, rfl, rfl⟩

theorem isDouble_float (x : Double) : (Number.float x).IsDouble := ⟨x, rfl⟩

/-- Two numbers are found the same if they have one value or are nearest to one
    double. This is all that the comparison of numbers can find. -/
theorem sameValue_iff_rounded : a.sameValue b = true ↔ a.toRat = b.toRat ∨ a.SameNearest b := by
  rw [sameValue_iff]
  constructor
  · rintro (rfl | ⟨x, y, hx, hy, hxy⟩)
    · exact .inl rfl
    · exact .inr ⟨x, y, hx, hy, Double.sameValue_iff_toRat_eq.mp hxy⟩
  · rintro (h | ⟨x, y, hx, hy, hxy⟩)
    · -- Unless both are integers, one of them is a double and the other has its value.
      have hdoubles (ha : a.IsDouble) (hb : b.IsDouble) :
          ∃ x y, a.toDouble? = some x ∧ b.toDouble? = some y ∧ x.sameValue y = true := by
        obtain ⟨x, hx, hxa⟩ := ha.toDouble?
        obtain ⟨y, hy, hyb⟩ := hb.toDouble?
        exact ⟨x, y, hx, hy, Double.sameValue_iff_toRat_eq.mpr (by rw [hxa, hyb, h])⟩
      cases a with
      | float x => exact .inr (hdoubles (isDouble_float x) ⟨x, h⟩)
      | int n =>
        cases b with
        | float y => exact .inr (hdoubles ⟨y, h.symm⟩ (isDouble_float y))
        | int m =>
          simp only [toRat, Int.cast_inj] at h
          exact .inl (congrArg Number.int h)
    · exact .inr ⟨x, y, hx, hy, Double.sameValue_iff_toRat_eq.mpr hxy⟩

/-- Rounding does not confuse numbers that are doubles, since each is the nearest
    to itself. -/
theorem SameNearest.toRat_eq (ha : a.IsDouble) (hb : b.IsDouble) (h : a.SameNearest b) :
    a.toRat = b.toRat := by
  obtain ⟨x, y, hx, hy, hxy⟩ := h
  obtain ⟨x', hx', hxa⟩ := ha.toDouble?
  obtain ⟨y', hy', hyb⟩ := hb.toDouble?
  rw [hx, Option.some.injEq] at hx'
  rw [hy, Option.some.injEq] at hy'
  rw [← hxa, ← hyb, ← hx', ← hy', hxy]

end Number

end SchemaTypes
