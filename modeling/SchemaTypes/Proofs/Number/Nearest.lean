import SchemaTypes.Proofs.Number.Text

namespace SchemaTypes

namespace NumberLiteral

/-- The exact value of a literal without its sign, as a decimal number. -/
def decimal (literal : NumberLiteral) : Decimal :=
  let fraction := literal.fraction.getD []
  let exponent : Int := match literal.exponent with
    | none => 0
    | some (negative, digits) =>
      if negative then -(digitsValue digits : Int) else digitsValue digits
  ⟨digitsValue (literal.whole ++ fraction), exponent - fraction.length⟩

/-- The number that a literal stands for: an integer of any size, or, where there
    is a point or an exponent, the nearest double. -/
def nearest? (literal : NumberLiteral) : Option Number :=
  match literal.fraction, literal.exponent with
  | none, none =>
    let value := digitsValue literal.whole
    some (.int (if literal.negative then -(value : Int) else value))
  | _, _ =>
    (Double.ofDecimal? literal.negative literal.decimal.coefficient literal.decimal.power).map .float

/-- Reads a literal with its sign. -/
def read (s : List Char) : Option (Parsed NumberLiteral) := do
  let (negative, s) := match s with
    | '-' :: s => (true, s)
    | s => (false, s)
  let (whole, s) ← (Json.readWhole s).toOption
  let (fraction, s) ← (Json.readFraction s).toOption
  let (exponent, s) ← (Json.readExponent s).toOption
  some (⟨negative, whole, fraction, exponent⟩, s)

/-- A literal is read back from its text, if what follows does not go on with it. -/
theorem read_append {literal : NumberLiteral} (h : literal.WellFormed) {rest : List Char}
    (hrest : EndsNumber rest) : read (literal.chars ++ rest) = some (literal, rest) := by
  have hwhole := readWhole_append h (head_fractionChars (l := literal) hrest)
  have hfraction := readFraction_append h (head_exponentChars (l := literal) hrest)
  have hexponent := readExponent_append h hrest
  obtain ⟨c, cs, hcs, hdigit⟩ := head_unsignedChars h
  have hsign : c ≠ '-' := by
    rintro rfl
    simp at hdigit
  have hunsigned : c :: (cs ++ rest) = literal.whole ++ (literal.fractionChars ++
      (literal.exponentChars ++ rest)) := by
    rw [← List.cons_append, ← hcs]
    simp only [unsignedChars, List.append_assoc]
  rw [chars, hcs]
  obtain ⟨negative, whole, fraction, exponent⟩ := literal
  cases negative with
  | true =>
    simp only [if_true, List.cons_append, read, hunsigned, hwhole, hfraction, hexponent,
      Except.toOption, Option.bind_eq_bind, Option.bind_some]
  | false =>
    simp only [Bool.false_eq_true, if_false, List.cons_append, read]
    split
    next hneg => exact absurd (List.cons.inj hneg).1 hsign
    next =>
      simp only [hunsigned, hwhole, hfraction, hexponent, Except.toOption, Option.bind_eq_bind,
        Option.bind_some]

end NumberLiteral

namespace Number

/-- Reads a number, which is the one nearest to what is written. -/
def read (s : List Char) : Option (Parsed Number) := do
  let (literal, rest) ← NumberLiteral.read s
  let number ← literal.nearest?
  some (number, rest)

/-- The literal that a number is printed as gives the number back, if it is
    rounded once. Reading a document may round twice, which is why reading back is
    an assumption there. -/
theorem nearest?_literal (n : Number) : n.literal.nearest? = some n := by
  cases n with
  | int n =>
    simp only [literal, NumberLiteral.nearest?, NumberLiteral.digitsValue_digits, decide_eq_true_eq,
      Option.some.injEq, int.injEq]
    split <;> omega
  | float x =>
    have hback := Decimal.readsBack_shortest x
    rw [Decimal.readsBack, beq_iff_eq] at hback
    have hvalue : (floatLayout.literal x.negative (Decimal.shortest x)).decimal.toRat =
        (Decimal.shortest x).toRat := Layout.toRat_literal _ _ _
    have hform := floatLayout.fraction_or_exponent_literal x.negative (Decimal.shortest x)
    rw [literal, NumberLiteral.nearest?, Layout.negative_literal, Decimal.ofDecimal?_congr hvalue, hback]
    split
    next hfraction hexponent => simp [hfraction, hexponent] at hform
    next => rfl

/-- A number is read back from its text by rounding to the nearest. -/
theorem read_append (n : Number) {rest : List Char} (hrest : EndsNumber rest) :
    read (n.chars ++ rest) = some (n, rest) := by
  rw [read, ← chars_literal, NumberLiteral.read_append n.wellFormed_literal hrest]
  simp only [Option.bind_eq_bind, Option.bind_some, nearest?_literal]

end Number

end SchemaTypes
