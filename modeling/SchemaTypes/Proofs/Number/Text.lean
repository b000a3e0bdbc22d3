import SchemaTypes.Json.Reader
import SchemaTypes.Proofs.Number.Rounding

namespace SchemaTypes

/-- Whether no character at the front of a text can belong to a number that ends
    before it. -/
def EndsNumber (rest : List Char) : Prop :=
  ∀ c ∈ rest.head?, c.isDigit = false ∧ c ≠ '.' ∧ c ≠ 'e' ∧ c ≠ 'E'

namespace NumberLiteral

def fractionChars (literal : NumberLiteral) : List Char :=
  match literal.fraction with
  | none => []
  | some digits => '.' :: digits

/-- The exponent as it is printed, always with a sign. -/
def exponentChars (literal : NumberLiteral) : List Char :=
  match literal.exponent with
  | none => []
  | some (negative, digits) => 'e' :: (if negative then '-' else '+') :: digits

def unsignedChars (literal : NumberLiteral) : List Char :=
  literal.whole ++ literal.fractionChars ++ literal.exponentChars

def chars (literal : NumberLiteral) : List Char :=
  if literal.negative then '-' :: literal.unsignedChars else literal.unsignedChars

/-- One or more decimal digits. -/
structure IsDigits (digits : List Char) : Prop where
  ne_nil : digits ≠ []
  isDigit : ∀ c ∈ digits, c.isDigit = true

/-- A literal whose parts are digits, without needless zeros in front. -/
structure WellFormed (literal : NumberLiteral) : Prop where
  whole : IsDigits literal.whole
  leading : ∀ rest, literal.whole = '0' :: rest → rest = []
  fraction : ∀ digits ∈ literal.fraction, IsDigits digits
  exponent : ∀ part ∈ literal.exponent, IsDigits part.2

/-- The characters that numbers are written with. -/
def isNumberChar (c : Char) : Bool := c.isDigit || c == '-' || c == '.' || c == 'e' || c == '+'

theorem isNumberChar_of_isDigit {c : Char} (h : c.isDigit = true) : isNumberChar c = true := by
  simp [isNumberChar, h]

/-- A literal is written with digits, signs, a point and the mark of the exponent only. -/
theorem isNumberChar_of_mem_chars {literal : NumberLiteral} (h : literal.WellFormed)
    {c : Char} (hc : c ∈ literal.chars) : isNumberChar c = true := by
  have hdigits {digits : List Char} (h : IsDigits digits) : ∀ c ∈ digits, isNumberChar c = true :=
    fun c hc => isNumberChar_of_isDigit (h.isDigit c hc)
  have hfraction : ∀ c ∈ literal.fractionChars, isNumberChar c = true := by
    unfold fractionChars
    split
    next => simp
    next digits hsome => simpa [isNumberChar] using hdigits (h.fraction digits hsome)
  have hexponent : ∀ c ∈ literal.exponentChars, isNumberChar c = true := by
    unfold exponentChars
    split
    next => simp
    next negative digits hsome =>
      have hpart := hdigits (h.exponent (negative, digits) hsome)
      cases negative <;> simpa using ⟨rfl, rfl, hpart⟩
  have hunsigned : ∀ c ∈ literal.unsignedChars, isNumberChar c = true := by
    simp only [unsignedChars, List.forall_mem_append]
    exact ⟨⟨hdigits h.whole, hfraction⟩, hexponent⟩
  rw [chars] at hc
  split at hc
  · rcases List.mem_cons.mp hc with rfl | hc
    · rfl
    · exact hunsigned c hc
  · exact hunsigned c hc

section Reading

open Json

/-- Digits are read up to the first character that is none. -/
theorem readDigits_append {digits rest : List Char} (hdigits : IsDigits digits)
    (hrest : ∀ c ∈ rest.head?, c.isDigit = false) :
    readDigits (digits ++ rest) = .ok (digits, rest) := by
  have hstop : rest.takeWhile Char.isDigit = [] ∧ rest.dropWhile Char.isDigit = rest := by
    cases rest with
    | nil => exact ⟨rfl, rfl⟩
    | cons c rest => simp [hrest c rfl]
  have hnil := hdigits.ne_nil
  rw [readDigits, List.takeWhile_append_of_pos hdigits.isDigit,
    List.dropWhile_append_of_pos hdigits.isDigit, hstop.1, hstop.2, List.append_nil]
  cases digits with
  | nil => exact absurd rfl hnil
  | cons c digits => rfl

variable {literal : NumberLiteral} (h : literal.WellFormed) {rest : List Char}

include h

theorem readWhole_append (hrest : ∀ c ∈ rest.head?, c.isDigit = false) :
    readWhole (literal.whole ++ rest) = .ok (literal.whole, rest) := by
  rw [readWhole, readDigits_append h.whole hrest]
  simp only [bind, Except.bind]
  split
  next heq =>
    obtain ⟨hwhole, _⟩ := Prod.mk.inj heq
    have hnil := h.leading _ hwhole
    cases hnil
  next heq => rw [← heq]

theorem readFraction_append (hrest : ∀ c ∈ rest.head?, c.isDigit = false ∧ c ≠ '.') :
    readFraction (literal.fractionChars ++ rest) = .ok (literal.fraction, rest) := by
  rw [fractionChars]
  cases hfraction : literal.fraction with
  | none =>
    cases rest with
    | nil => rfl
    | cons c rest =>
      have := (hrest c rfl).2
      simp [readFraction, this]
  | some digits =>
    have hdigits := h.fraction digits hfraction
    simp only [List.cons_append, readFraction, readDigits_append hdigits fun c hc => (hrest c hc).1]
    rfl

/-- Each part of a literal is read back, if the next character cannot belong to
    it. For the exponent, which is the last one, this is what ends a number. -/
theorem readExponent_append (hrest : EndsNumber rest) :
    readExponent (literal.exponentChars ++ rest) = .ok (literal.exponent, rest) := by
  rw [exponentChars]
  cases hexponent : literal.exponent with
  | none =>
    cases rest with
    | nil => rfl
    | cons c rest =>
      obtain ⟨_, _, he, hE⟩ := hrest c rfl
      simp [readExponent, he, hE]
  | some part =>
    obtain ⟨negative, digits⟩ := part
    have hdigits := h.exponent _ hexponent
    have hread := readDigits_append hdigits fun c hc => (hrest c hc).1
    cases negative <;> simp [readExponent, hread, bind, Except.bind]

end Reading

section Unambiguous

variable {l m : NumberLiteral} {rest rest' : List Char}

/-- The exponent, or what follows the literal if there is none, does not go on
    with the digits before it. -/
theorem head_exponentChars (hrest : EndsNumber rest) :
    ∀ c ∈ (l.exponentChars ++ rest).head?, c.isDigit = false ∧ c ≠ '.' := by
  intro c hc
  rw [exponentChars] at hc
  cases hexponent : l.exponent with
  | none =>
    rw [hexponent] at hc
    exact ⟨(hrest c hc).1, (hrest c hc).2.1⟩
  | some part =>
    rw [hexponent, List.cons_append, List.head?_cons, Option.mem_some_iff] at hc
    subst hc
    decide

theorem head_fractionChars (hrest : EndsNumber rest) :
    ∀ c ∈ (l.fractionChars ++ (l.exponentChars ++ rest)).head?, c.isDigit = false := by
  intro c hc
  rw [fractionChars] at hc
  cases hfraction : l.fraction with
  | none =>
    rw [hfraction] at hc
    exact (head_exponentChars hrest c hc).1
  | some digits =>
    rw [hfraction, List.cons_append, List.head?_cons, Option.mem_some_iff] at hc
    subst hc
    decide

/-- What follows a literal shows where it ends, and its parts can be read off its
    text, since each of them is read back. -/
theorem unsignedChars_append_inj (hl : l.WellFormed) (hm : m.WellFormed) (hrest : EndsNumber rest)
    (hrest' : EndsNumber rest') (h : l.unsignedChars ++ rest = m.unsignedChars ++ rest') :
    (l.whole = m.whole ∧ l.fraction = m.fraction ∧ l.exponent = m.exponent) ∧ rest = rest' := by
  simp only [unsignedChars, List.append_assoc] at h
  have hwhole := congrArg Json.readWhole h
  rw [readWhole_append hl (head_fractionChars hrest), readWhole_append hm (head_fractionChars hrest'),
    Except.ok.injEq, Prod.mk.injEq] at hwhole
  have hfraction := congrArg Json.readFraction hwhole.2
  rw [readFraction_append hl (head_exponentChars hrest),
    readFraction_append hm (head_exponentChars hrest'), Except.ok.injEq, Prod.mk.injEq] at hfraction
  have hexponent := congrArg Json.readExponent hfraction.2
  rw [readExponent_append hl hrest, readExponent_append hm hrest', Except.ok.injEq,
    Prod.mk.injEq] at hexponent
  exact ⟨⟨hwhole.1, hfraction.1, hexponent.1⟩, hexponent.2⟩

theorem head_unsignedChars (hl : l.WellFormed) :
    ∃ c cs, l.unsignedChars = c :: cs ∧ c.isDigit = true := by
  have hdigit := hl.whole.isDigit
  have hnil := hl.whole.ne_nil
  rw [unsignedChars]
  cases hwhole : l.whole with
  | nil => exact absurd hwhole hnil
  | cons c cs => exact ⟨c, _, rfl, hdigit c (by simp [hwhole])⟩

/-- A literal is determined by its text, whatever follows it. The sign is told by
    the first character, which is a digit otherwise. -/
theorem chars_append_inj (hl : l.WellFormed) (hm : m.WellFormed) (hrest : EndsNumber rest)
    (hrest' : EndsNumber rest') (h : l.chars ++ rest = m.chars ++ rest') : l = m ∧ rest = rest' := by
  obtain ⟨c, cs, hc, hdigit⟩ := head_unsignedChars hl
  obtain ⟨d, ds, hd, hdigit'⟩ := head_unsignedChars hm
  have hminus : ∀ {c : Char}, c.isDigit = true → c ≠ '-' := by
    rintro _ hdigit rfl
    simp at hdigit
  have hsign : l.negative = m.negative := by
    cases hln : l.negative <;> cases hmn : m.negative <;> simp [chars, hln, hmn, hc, hd] at h ⊢
    · exact hminus hdigit h.1
    · exact hminus hdigit' h.1.symm
  have htail : l.unsignedChars ++ rest = m.unsignedChars ++ rest' := by
    rw [chars, chars, hsign] at h
    split at h
    · exact List.cons.inj h |>.2
    · exact h
  obtain ⟨⟨hwhole, hfraction, hexponent⟩, hresteq⟩ := unsignedChars_append_inj hl hm hrest hrest' htail
  refine ⟨?_, hresteq⟩
  cases l
  cases m
  simp_all

end Unambiguous

/-- The exact value of a literal without its sign. -/
def toRat (literal : NumberLiteral) : ℚ :=
  let fraction := literal.fraction.getD []
  let exponent : Int := match literal.exponent with
    | none => 0
    | some (negative, digits) =>
      if negative then -(digitsValue digits : Int) else digitsValue digits
  digitsValue (literal.whole ++ fraction) * 10 ^ (exponent - fraction.length)

/-- The digits in front count as often as those behind them have places. -/
theorem digitsValue_append (xs ys : List Char) :
    digitsValue (xs ++ ys) = digitsValue xs * 10 ^ ys.length + digitsValue ys := by
  rw [Nat.mul_comm]
  exact (Nat.ofDigitChars_append 0).trans Nat.ofDigitChars_eq_ofDigitChars_zero

theorem digitsValue_digits (n : Nat) : digitsValue (Layout.digits n) = n :=
  Nat.ofDigitChars_ten_toDigits

theorem digitsValue_replicate_zero (n : Nat) : digitsValue (List.replicate n '0') = 0 :=
  Nat.ofDigitChars_replicate_zero.trans (Nat.mul_zero _)

theorem isDigits_digits (n : Nat) : IsDigits (Layout.digits n) :=
  ⟨Nat.toDigits_ne_nil, fun _ => Nat.isDigit_of_mem_toDigits (by decide) (by decide)⟩

theorem IsDigits.append {xs ys : List Char} (hxs : ∀ c ∈ xs, c.isDigit = true) (hys : IsDigits ys) :
    IsDigits (xs ++ ys) := by
  refine ⟨by simp [hys.ne_nil], fun c hc => ?_⟩
  rcases List.mem_append.mp hc with hc | hc
  · exact hxs c hc
  · exact hys.isDigit c hc

theorem IsDigits.of_subset {xs ys : List Char} (hys : IsDigits ys) (hsubset : xs ⊆ ys) (hne : xs ≠ []) :
    IsDigits xs :=
  ⟨hne, fun c hc => hys.isDigit c (hsubset hc)⟩

theorem isDigit_of_mem_replicate {n : Nat} {c : Char} (h : c ∈ List.replicate n '0') :
    c.isDigit = true := by
  rw [List.eq_of_mem_replicate h]
  rfl

/-- Only zero is written with a zero in front, which is what a literal asks of its
    digits. -/
theorem eq_zero_of_digits {n : Nat} {rest : List Char} (h : Layout.digits n = '0' :: rest) : n = 0 := by
  induction n using Nat.strongRecOn generalizing rest with
  | ind n ih =>
    rcases Nat.lt_or_ge n 10 with hlt | hge
    · rw [Layout.digits, Nat.toDigits_of_lt_base hlt] at h
      have hvalue := Nat.toNat_digitChar_sub_48_of_lt_ten hlt
      rw [(List.cons.inj h).1] at hvalue
      exact hvalue.symm
    · rw [Layout.digits, Nat.toDigits_of_base_le (by decide) hge] at h
      have hdiv : n / 10 < n := Nat.div_lt_self (by omega) (by decide)
      cases hdigits : Nat.toDigits 10 (n / 10) with
      | nil => exact absurd hdigits Nat.toDigits_ne_nil
      | cons c cs =>
        rw [hdigits, List.cons_append] at h
        rw [(List.cons.inj h).1] at hdigits
        have := ih (n / 10) hdiv hdigits
        omega

end NumberLiteral

namespace Layout

open NumberLiteral

def positionalLiteral (negative : Bool) (digits : List Char) (leading : Int) : NumberLiteral :=
  if leading < 0 then
    ⟨negative, ['0'], some (List.replicate (-leading - 1).toNat '0' ++ digits), none⟩
  else
    let whole := leading.toNat + 1
    if digits.length ≤ whole then
      ⟨negative, digits ++ List.replicate (whole - digits.length) '0', some ['0'], none⟩
    else ⟨negative, digits.take whole, some (digits.drop whole), none⟩

def scientificLiteral (negative : Bool) (digits : List Char) (leading : Int) : NumberLiteral :=
  ⟨negative, digits.take 1, if digits.drop 1 = [] then none else some (digits.drop 1),
    some (decide (leading < 0), Layout.digits leading.natAbs)⟩

/-- The literal that is printed for a decimal number. -/
def literal (layout : Layout) (negative : Bool) (d : Decimal) : NumberLiteral :=
  let digits := Layout.digits d.coefficient
  let leading := d.power + digits.length - 1
  if layout.least ≤ leading ∧ leading ≤ layout.greatest then
    positionalLiteral negative digits leading
  else scientificLiteral negative digits leading

/-- A decimal is printed as the text of a literal, in every layout. -/
theorem unsignedChars_literal (layout : Layout) (negative : Bool) (d : Decimal) :
    (layout.literal negative d).unsignedChars = layout.chars d := by
  simp only [literal, chars]
  split
  · simp only [positionalLiteral, positional]
    split_ifs <;> simp [unsignedChars, fractionChars, exponentChars]
  · simp only [scientificLiteral, scientific, unsignedChars, fractionChars, exponentChars]
    cases (Layout.digits d.coefficient).drop 1 <;> simp

theorem negative_literal (layout : Layout) (negative : Bool) (d : Decimal) :
    (layout.literal negative d).negative = negative := by
  simp only [literal, positionalLiteral, scientificLiteral]
  split_ifs <;> rfl

/-- A literal that is printed for a decimal number is not that of an integer.
    Doubles that are whole numbers are thus told apart from integers. -/
theorem fraction_or_exponent_literal (layout : Layout) (negative : Bool) (d : Decimal) :
    (layout.literal negative d).fraction ≠ none ∨ (layout.literal negative d).exponent ≠ none := by
  simp only [literal, positionalLiteral, scientificLiteral]
  split_ifs <;> simp

/-- Digits with a point among them or zeros around them are a literal of the right
    form, if only zero starts with a zero. -/
theorem wellFormed_positionalLiteral (negative : Bool) {digits : List Char} (hdigits : IsDigits digits)
    {leading : Int} (hzero : ∀ rest, digits = '0' :: rest → rest = [] ∧ leading = 0) :
    (positionalLiteral negative digits leading).WellFormed := by
  cases digits with
  | nil => exact absurd rfl hdigits.ne_nil
  | cons c cs =>
    simp only [positionalLiteral]
    split_ifs with hnegative hlong
    · refine ⟨⟨by simp, by simp⟩, by simp, ?_, by simp⟩
      simp only [Option.mem_def, Option.some.injEq, forall_eq']
      exact hdigits.append fun _ => isDigit_of_mem_replicate
    · refine ⟨⟨by simp, fun x hx => ?_⟩, fun rest h => ?_, ?_, by simp⟩
      · rcases List.mem_append.mp hx with hx | hx
        · exact hdigits.isDigit x hx
        · exact isDigit_of_mem_replicate hx
      · obtain ⟨rfl, rfl⟩ := List.cons.inj h
        obtain ⟨rfl, rfl⟩ := hzero cs rfl
        simp
      · simp only [Option.mem_def, Option.some.injEq, forall_eq']
        exact ⟨by simp, by simp⟩
    · refine ⟨hdigits.of_subset (List.take_subset _ _) (by simp), fun rest h => ?_, ?_, by simp⟩
      · rw [List.take_succ_cons] at h
        obtain ⟨rfl, _⟩ := List.cons.inj h
        obtain ⟨rfl, rfl⟩ := hzero cs rfl
        simp at hlong
      · simp only [Option.mem_def, Option.some.injEq, forall_eq']
        refine hdigits.of_subset (List.drop_subset _ _) fun hnil => ?_
        have := List.drop_eq_nil_iff.mp hnil
        omega

theorem wellFormed_scientificLiteral (negative : Bool) {digits : List Char} (hdigits : IsDigits digits)
    (leading : Int) : (scientificLiteral negative digits leading).WellFormed := by
  cases digits with
  | nil => exact absurd rfl hdigits.ne_nil
  | cons c cs =>
    refine ⟨hdigits.of_subset (List.take_subset _ _) (by simp [scientificLiteral]),
      fun rest h => ?_, fun ds hds => ?_, ?_⟩
    · simp only [scientificLiteral, List.take_succ_cons, List.take_zero] at h
      exact (List.cons.inj h).2.symm
    · simp only [scientificLiteral, List.drop_succ_cons, List.drop_zero] at hds
      split_ifs at hds with hnil
      · cases hds
      · cases hds
        exact hdigits.of_subset (List.subset_cons_self _ _) hnil
    · simp only [scientificLiteral, Option.mem_def, Option.some.injEq, forall_eq']
      exact isDigits_digits _

/-- What is printed for a decimal is a literal of the right form, in every layout. -/
theorem wellFormed_literal (layout : Layout) (negative : Bool) {d : Decimal}
    (hd : d.coefficient = 0 → d.power = 0) : (layout.literal negative d).WellFormed := by
  simp only [literal]
  split
  · refine wellFormed_positionalLiteral negative (isDigits_digits _) fun rest h => ?_
    have hzero := eq_zero_of_digits h
    rw [hd hzero, h]
    rw [hzero, Layout.digits, Nat.toDigits_zero] at h
    simp [(List.cons.inj h).2.symm]
  · exact wellFormed_scientificLiteral negative (isDigits_digits _) _

/-- Moving the point through the digits, or filling up with zeros on either side,
    keeps the value. -/
theorem toRat_positionalLiteral (negative : Bool) {digits : List Char} (hdigits : digits ≠ [])
    (leading : Int) :
    (positionalLiteral negative digits leading).toRat =
      digitsValue digits * 10 ^ (leading + 1 - digits.length) := by
  have hlength := List.length_pos_iff.mpr hdigits
  simp only [positionalLiteral]
  split_ifs with hnegative hlong
  · have hvalue : digitsValue (['0'] ++ (List.replicate (-leading - 1).toNat '0' ++ digits)) =
        digitsValue digits := by
      rw [digitsValue_append, digitsValue_append, digitsValue_replicate_zero]
      simp [digitsValue, digitValue]
    have hpower : (0 : Int) - (List.replicate (-leading - 1).toNat '0' ++ digits).length =
        leading + 1 - digits.length := by
      simp only [List.length_append, List.length_replicate]
      omega
    simp only [toRat, Option.getD_some, hvalue, hpower]
  · have hvalue : digitsValue (digits ++ List.replicate (leading.toNat + 1 - digits.length) '0' ++ ['0']) =
        digitsValue digits * 10 ^ (leading.toNat + 1 - digits.length) * 10 := by
      rw [digitsValue_append, digitsValue_append, digitsValue_replicate_zero]
      simp [digitsValue, digitValue]
    have hpower : leading + 1 - digits.length = ((leading.toNat + 1 - digits.length : Nat) : Int) := by
      omega
    simp only [toRat, Option.getD_some, hvalue, hpower, zpow_natCast, List.length_singleton]
    push_cast
    norm_num
    ring
  · have hpower : (0 : Int) - (digits.drop (leading.toNat + 1)).length =
        leading + 1 - digits.length := by
      simp only [List.length_drop]
      omega
    simp only [toRat, Option.getD_some, List.take_append_drop, hpower]

theorem toRat_scientificLiteral (negative : Bool) {digits : List Char} (hdigits : digits ≠ [])
    (leading : Int) :
    (scientificLiteral negative digits leading).toRat =
      digitsValue digits * 10 ^ (leading + 1 - digits.length) := by
  have hlength := List.length_pos_iff.mpr hdigits
  have hexponent : (if decide (leading < 0) then -((digitsValue (Layout.digits leading.natAbs) : Nat) : Int)
      else digitsValue (Layout.digits leading.natAbs)) = leading := by
    rw [digitsValue_digits]
    split_ifs with hnegative
    · simp only [decide_eq_true_eq] at hnegative
      omega
    · simp only [decide_eq_true_eq] at hnegative
      omega
  have hfraction : (if digits.drop 1 = [] then none else some (digits.drop 1)).getD [] =
      digits.drop 1 := by
    split_ifs with hnil
    · exact hnil.symm
    · rfl
  have hpower : leading - (digits.drop 1).length = leading + 1 - digits.length := by
    rw [List.length_drop]
    omega
  simp only [toRat, scientificLiteral, hexponent, hfraction, List.take_append_drop, hpower]

/-- The literal has the value of the decimal, whichever layout was chosen for it. -/
theorem toRat_literal (layout : Layout) (negative : Bool) (d : Decimal) :
    (layout.literal negative d).toRat = d.toRat := by
  have hdigits := (isDigits_digits d.coefficient).ne_nil
  have hpower : d.power + ((Layout.digits d.coefficient).length : Int) - 1 + 1 -
      (Layout.digits d.coefficient).length = d.power := by omega
  simp only [literal]
  split
  · rw [toRat_positionalLiteral negative hdigits, digitsValue_digits, hpower, Decimal.toRat]
  · rw [toRat_scientificLiteral negative hdigits, digitsValue_digits, hpower, Decimal.toRat]

end Layout

theorem Decimal.power_eq_zero_of_shortest {x : Double} (h : (shortest x).coefficient = 0) :
    (shortest x).power = 0 := by
  have hback := readsBack_shortest x
  rw [readsBack, beq_iff_eq, h] at hback
  simp only [Double.ofDecimal?, Double.ofRatio?, Nat.zero_mul, if_true, Option.some.injEq] at hback
  have hzero : x.isZero = true := by
    rw [← hback]
    rfl
  rw [shortest, if_pos hzero]

namespace Number

/-- The literal that is printed for a number. -/
def literal : Number → NumberLiteral
  | .int n => ⟨decide (n < 0), Layout.digits n.natAbs, none, none⟩
  | .float x => floatLayout.literal x.negative (Decimal.shortest x)

/-- A number is printed as the text of its literal. Whatever is proved of literals
    is used for numbers through this. -/
theorem chars_literal (n : Number) : n.literal.chars = n.chars := by
  cases n with
  | int n =>
    simp [literal, chars, intChars, NumberLiteral.chars, NumberLiteral.unsignedChars,
      NumberLiteral.fractionChars, NumberLiteral.exponentChars]
  | float x =>
    simp only [literal, chars, floatChars, NumberLiteral.chars, Layout.negative_literal,
      Layout.unsignedChars_literal]

theorem wellFormed_literal (n : Number) : n.literal.WellFormed := by
  cases n with
  | int n =>
    refine ⟨NumberLiteral.isDigits_digits _, fun rest h => ?_, by simp [literal], by simp [literal]⟩
    have hzero := NumberLiteral.eq_zero_of_digits h
    simp only [literal, hzero, Layout.digits, Nat.toDigits_zero] at h
    exact (List.cons.inj h).2.symm
  | float x => exact floatLayout.wellFormed_literal x.negative Decimal.power_eq_zero_of_shortest

/-- Integers and doubles are told apart by the form of their literals, and either
    is determined by its literal. For doubles this is where the shortest decimal
    reading back is used. -/
theorem literal_inj {n m : Number} (h : n.literal = m.literal) : n = m := by
  cases n with
  | int n =>
    cases m with
    | int m =>
      simp only [literal, NumberLiteral.mk.injEq, decide_eq_decide] at h
      have hvalue := congrArg NumberLiteral.digitsValue h.2.1
      rw [NumberLiteral.digitsValue_digits, NumberLiteral.digitsValue_digits] at hvalue
      congr 1
      omega
    | float y =>
      have hform := floatLayout.fraction_or_exponent_literal y.negative (Decimal.shortest y)
      rw [← literal, ← h] at hform
      simp [literal] at hform
  | float x =>
    cases m with
    | int m =>
      have hform := floatLayout.fraction_or_exponent_literal x.negative (Decimal.shortest x)
      rw [← literal, h] at hform
      simp [literal] at hform
    | float y =>
      have hsign := congrArg NumberLiteral.negative h
      have hvalue := congrArg NumberLiteral.toRat h
      simp only [literal, Layout.negative_literal, Layout.toRat_literal] at hsign hvalue
      rw [Decimal.shortest_inj hsign hvalue]

/-- A number is determined by its text, whatever follows it, be it an integer or a
    double. -/
theorem chars_append_inj {n m : Number} {rest rest' : List Char} (hrest : EndsNumber rest)
    (hrest' : EndsNumber rest') (h : n.chars ++ rest = m.chars ++ rest') : n = m ∧ rest = rest' := by
  rw [← chars_literal, ← chars_literal] at h
  obtain ⟨hliteral, hresteq⟩ := NumberLiteral.chars_append_inj n.wellFormed_literal
    m.wellFormed_literal hrest hrest' h
  exact ⟨literal_inj hliteral, hresteq⟩

theorem head_chars (n : Number) : ∃ c cs, n.chars = c :: cs ∧ (c.isDigit = true ∨ c = '-') := by
  obtain ⟨c, cs, hc, hdigit⟩ := NumberLiteral.head_unsignedChars n.wellFormed_literal
  rw [← chars_literal, NumberLiteral.chars]
  split
  · exact ⟨'-', _, rfl, .inr rfl⟩
  · exact ⟨c, cs, hc, .inl hdigit⟩

theorem isNumberChar_of_mem_chars {n : Number} {c : Char} (hc : c ∈ n.chars) :
    NumberLiteral.isNumberChar c = true := by
  rw [← chars_literal] at hc
  exact NumberLiteral.isNumberChar_of_mem_chars n.wellFormed_literal hc

end Number

end SchemaTypes
