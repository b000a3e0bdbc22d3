import SchemaTypes.Json.Pointer
import SchemaTypes.Proofs.Json.Reader
import SchemaTypes.Proofs.Json.Text
import SchemaTypes.Proofs.Json.Value

namespace SchemaTypes

section Numbers

/-- An integer of 64 bits, unsigned or signed, or any double. -/
def Number.InRange : Number → Prop
  | .int n => -((1 <<< 63 : Nat) : Int) ≤ n ∧ n < (1 <<< 64 : Nat)
  | .float _ => True

/-- The literal that is printed for a double stands for the same double when it is read. -/
def Double.ReadsBack (x : Double) : Prop := (Number.float x).literal.toDouble? = some x

instance (x : Double) : Decidable x.ReadsBack :=
  inferInstanceAs (Decidable ((Number.float x).literal.toDouble? = some x))

/-- The text of a literal is read as its value, if what follows does not go on
    with the number. -/
theorem NumberLiteral.readNumber_append {l : NumberLiteral} (hl : l.WellFormed) {n : Number}
    (hvalue : l.toNumber? = some n) {rest : List Char} (hrest : EndsNumber rest) :
    Json.readNumber l.negative (l.unsignedChars ++ rest) = .ok (n, rest) := by
  refine Json.readNumber_eq_ok_iff.mpr ⟨l.whole, _, l.fraction, _, l.exponent, ?_,
    readFraction_append hl (head_exponentChars hrest), readExponent_append hl hrest, hvalue⟩
  rw [unsignedChars, List.append_assoc, List.append_assoc]
  exact readWhole_append hl (head_fractionChars hrest)

/-- A literal that is not that of an integer is read as a double. -/
theorem NumberLiteral.toNumber?_eq_map {l : NumberLiteral} (h : l.fraction ≠ none ∨ l.exponent ≠ none) :
    l.toNumber? = l.toDouble?.map .float := by
  unfold toNumber?
  split
  next hfraction hexponent => simp [hfraction, hexponent] at h
  next => rfl

/-- The literal that a number is printed as has this number for its value. For
    doubles this is the assumption, since a literal may be rounded to a neighbour;
    for integers it is the range. -/
theorem Number.toNumber?_literal {n : Number} (hrange : n.InRange)
    (hfloat : ∀ x, n = .float x → x.ReadsBack) : n.literal.toNumber? = some n := by
  cases n with
  | float x =>
    have hkind : (Number.float x).literal.toNumber? = (Number.float x).literal.toDouble?.map .float :=
      NumberLiteral.toNumber?_eq_map (Layout.fraction_or_exponent_literal _ _ _)
    rw [hkind, hfloat x rfl, Option.map_some]
  | int n =>
    obtain ⟨hleast, hgreatest⟩ := hrange
    simp only [literal, NumberLiteral.toNumber?, NumberLiteral.digitsValue_digits,
      decide_eq_false_iff_not, decide_eq_true_eq]
    by_cases hnegative : n < 0
    · rw [if_neg (by omega), if_pos (by omega), Int.ofNat_natAbs_of_nonpos (by omega), neg_neg]
    · rw [if_pos (by omega), Int.natAbs_of_nonneg (by omega)]

/-- No literal has an integer for its value that does not fit. Such literals are
    read as doubles. -/
theorem NumberLiteral.inRange_of_toNumber? {l : NumberLiteral} {n : Number}
    (h : l.toNumber? = some n) : n.InRange := by
  have hfloat (h : l.toDouble?.map Number.float = some n) : n.InRange := by
    obtain ⟨x, _, rfl⟩ := Option.map_eq_some_iff.mp h
    trivial
  simp only [toNumber?] at h
  split at h
  next =>
    split_ifs at h with hpositive hnegative
    · cases h
      constructor <;> omega
    · cases h
      constructor <;> omega
    · exact hfloat h
  next => exact hfloat h

end Numbers

namespace Json

section Nesting

mutual

/-- How deep lists and objects are nested in a value. -/
def nesting : Json → Nat
  | .arr items => nestingOfItems items + 1
  | .obj entries => nestingOfEntries entries + 1
  | _ => 0

def nestingOfItems : List Json → Nat
  | [] => 0
  | x :: xs => max x.nesting (nestingOfItems xs)

def nestingOfEntries : List (String × Json) → Nat
  | [] => 0
  | (_, x) :: xs => max x.nesting (nestingOfEntries xs)

end

theorem nestingOfItems_le_iff {items : List Json} {depth : Nat} :
    nestingOfItems items ≤ depth ↔ ∀ x ∈ items, x.nesting ≤ depth := by
  induction items with
  | nil => simp [nestingOfItems]
  | cons x xs ih => simp [nestingOfItems, ih]

theorem nestingOfEntries_le_iff {entries : List (String × Json)} {depth : Nat} :
    nestingOfEntries entries ≤ depth ↔ ∀ entry ∈ entries, entry.2.nesting ≤ depth := by
  induction entries with
  | nil => simp [nestingOfEntries]
  | cons entry entries ih => simp only [nestingOfEntries, Nat.max_le, ih, List.forall_mem_cons]

/-- How deep a list is nested, by its items. The lemma for objects says the same
    of entries. -/
@[simp]
theorem nesting_arr_le_iff {items : List Json} {depth : Nat} :
    (Json.arr items).nesting ≤ depth + 1 ↔ ∀ x ∈ items, x.nesting ≤ depth := by
  rw [nesting, Nat.add_le_add_iff_right, nestingOfItems_le_iff]

@[simp]
theorem nesting_obj_le_iff {entries : List (String × Json)} {depth : Nat} :
    (Json.obj entries).nesting ≤ depth + 1 ↔ ∀ entry ∈ entries, entry.2.nesting ≤ depth := by
  rw [nesting, Nat.add_le_add_iff_right, nestingOfEntries_le_iff]

theorem nesting_lt_of_item {items : List Json} {x : Json} (hx : x ∈ items) :
    x.nesting < (Json.arr items).nesting :=
  Nat.lt_succ_of_le (nestingOfItems_le_iff.mp le_rfl x hx)

theorem nesting_lt_of_entry {entries : List (String × Json)} {entry : String × Json}
    (hentry : entry ∈ entries) : entry.2.nesting < (Json.obj entries).nesting :=
  Nat.lt_succ_of_le (nestingOfEntries_le_iff.mp le_rfl entry hentry)

end Nesting

/-- The numbers of a value that are doubles are read back from their texts. -/
def FloatsReadBack (value : Json) : Prop := ∀ x, value.HasNumber (.float x) → x.ReadsBack

/-- No name stands twice in an object, and integers fit 64 bits. -/
structure WellFormed (value : Json) : Prop where
  names : value.NamesDistinct
  numbers : ∀ n, value.HasNumber n → n.InRange

section Printed

theorem isBlank_of_isDigit {c : Char} (hc : c.isDigit = true) : isBlank c = false := by
  by_contra hblank
  simp only [isBlank, Bool.not_eq_false, Bool.or_eq_true, beq_iff_eq] at hblank
  rcases hblank with ((rfl | rfl) | rfl) | rfl <;> exact absurd hc (by decide)

/-- The text of a value starts with a character that is no blank and does not
    close a list. This is how the reader knows that an item follows. -/
theorem exists_chars_eq_cons (value : Json) :
    ∃ c cs, value.chars = c :: cs ∧ isBlank c = false ∧ c ≠ ']' := by
  obtain ⟨c, cs, hchars, -, hbracket⟩ := value.head_chars
  refine ⟨c, cs, hchars, ?_, hbracket⟩
  cases value with
  | num n =>
    obtain ⟨d, ds, hn, hd⟩ := n.head_chars
    rw [chars, hn] at hchars
    cases hchars
    rcases hd with hdigit | rfl
    · exact isBlank_of_isDigit hdigit
    · rfl
  | bool b =>
    cases b <;>
    · cases hchars
      rfl
  | _ =>
    rw [chars] at hchars
    cases hchars
    rfl

/-- What stands behind a part of a list: a comma and the other parts, or the
    closing bracket. -/
def afterPart (closing : Char) (rest : List Char) (parts : List (List Char)) : List Char :=
  if parts = [] then closing :: rest else ',' :: (joinChars [','] parts ++ closing :: rest)

section AfterPart

variable {closing : Char} {rest part : List Char} {parts : List (List Char)}

theorem afterPart_nil : afterPart closing rest [] = closing :: rest := rfl

/-- Behind a part come a comma, the next part and what is behind that one, or the
    closing bracket. -/
theorem afterPart_cons :
    afterPart closing rest (part :: parts) = ',' :: (part ++ afterPart closing rest parts) := by
  rw [afterPart, if_neg (List.cons_ne_nil part parts), joinChars_cons]
  rfl

theorem endsValue_afterPart (hclosing : closing = ']' ∨ closing = '\x7d') :
    EndsValue (afterPart closing rest parts) := by
  cases parts with
  | nil => simp [EndsValue, afterPart_nil, hclosing]
  | cons part parts => simp [EndsValue, afterPart_cons]

/-- Every part has a comma in front of it, so there are fewer parts than
    characters, and the rounds that the reader allows itself are enough. -/
theorem length_lt_length_afterPart (closing : Char) (rest : List Char) (parts : List (List Char)) :
    parts.length < (afterPart closing rest parts).length := by
  induction parts with
  | nil => simp [afterPart_nil]
  | cons part parts ih =>
    simp only [afterPart_cons, List.length_cons, List.length_append]
    omega

end AfterPart

section Lists

variable {readItem : List Char → Except ReadError (Parsed Json)} {rest : List Char}

/-- Items are read back one after the other, each up to the comma or the bracket
    behind it. -/
theorem readMoreItems_afterPart {items : List Json}
    (hitems : ∀ x ∈ items, ∀ rest, EndsValue rest → readItem (x.chars ++ rest) = .ok (x, rest))
    {rounds : Nat} (hrounds : items.length < rounds) (index : Nat) :
    readMoreItems readItem rounds index (afterPart ']' rest (items.map chars)) =
      .ok (items, rest) := by
  induction items generalizing rounds index with
  | nil =>
    obtain ⟨rounds, rfl⟩ := Nat.exists_eq_add_one.mpr hrounds
    exact readMoreItems_eq_ok_iff.mpr (.inl ⟨rfl, skipBlanks_cons rfl rest⟩)
  | cons x xs ih =>
    obtain ⟨rounds, rfl⟩ := Nat.exists_eq_add_one.mpr (Nat.zero_lt_of_lt hrounds)
    rw [List.forall_mem_cons] at hitems
    obtain ⟨c, cs, hchars, hblank, hbracket⟩ := x.exists_chars_eq_cons
    have hread := hitems.1 (afterPart ']' rest (xs.map chars)) (endsValue_afterPart (.inl rfl))
    rw [List.map_cons, afterPart_cons]
    rw [hchars, List.cons_append] at hread ⊢
    exact readMoreItems_eq_ok_iff.mpr (.inr ⟨_, c, _, x, _, xs, rfl, skipBlanks_cons rfl _,
      skipBlanks_cons hblank _, hbracket, hread, ih hitems.2 (Nat.lt_of_succ_lt_succ hrounds) _⟩)

/-- A list is read back from its text, if each of its items is. -/
theorem readItems_joinChars {items : List Json}
    (hitems : ∀ x ∈ items, ∀ rest, EndsValue rest → readItem (x.chars ++ rest) = .ok (x, rest)) :
    readItems readItem (joinChars [','] (items.map chars) ++ ']' :: rest) = .ok (items, rest) := by
  cases items with
  | nil => exact readItems_eq_ok_iff.mpr (.inl ⟨rfl, skipBlanks_cons rfl rest⟩)
  | cons x xs =>
    rw [List.forall_mem_cons] at hitems
    obtain ⟨c, cs, hchars, hblank, hbracket⟩ := x.exists_chars_eq_cons
    have hread := hitems.1 (afterPart ']' rest (xs.map chars)) (endsValue_afterPart (.inl rfl))
    rw [List.map_cons, joinChars_cons]
    rw [hchars, List.cons_append] at hread ⊢
    refine readItems_eq_ok_iff.mpr (.inr ⟨c, _, x, _, xs, rfl, skipBlanks_cons hblank _, hbracket,
      hread, readMoreItems_afterPart hitems.2 (Nat.lt_succ_of_lt ?_) 1⟩)
    simpa using length_lt_length_afterPart ']' rest (xs.map chars)

end Lists

section Objects

variable {readItem : List Char → Except ReadError (Parsed Json)} {rest : List Char}

def entryText (entry : String × Json) : List Char := quotedChars entry.1 ++ ':' :: entry.2.chars

/-- An entry is read back from its text, if its value is. -/
theorem readEntry_entryText {entry : String × Json}
    (hentry : readItem (entry.2.chars ++ rest) = .ok (entry.2, rest)) :
    ∃ t, entryText entry ++ rest = '"' :: t ∧ readEntry readItem t = .ok (entry, rest) := by
  refine ⟨entry.1.toList.flatMap escapedChar ++ '"' :: ':' :: (entry.2.chars ++ rest), ?_, ?_⟩
  · simp [entryText, quotedChars]
  · exact readEntry_eq_ok_iff.mpr ⟨_, _, _, String.ofList_toList.symm, readQuoted_escaped _ _,
      skipBlanks_cons rfl _, hentry⟩

theorem readMoreEntries_afterPart {entries : List (String × Json)}
    (hentries : ∀ entry ∈ entries, ∀ rest, EndsValue rest →
      readItem (entry.2.chars ++ rest) = .ok (entry.2, rest))
    {rounds : Nat} (hrounds : entries.length < rounds) :
    readMoreEntries readItem rounds (afterPart '\x7d' rest (entries.map entryText)) =
      .ok (entries, rest) := by
  induction entries generalizing rounds with
  | nil =>
    obtain ⟨rounds, rfl⟩ := Nat.exists_eq_add_one.mpr hrounds
    exact readMoreEntries_eq_ok_iff.mpr (.inl ⟨rfl, skipBlanks_cons rfl rest⟩)
  | cons entry entries ih =>
    obtain ⟨rounds, rfl⟩ := Nat.exists_eq_add_one.mpr (Nat.zero_lt_of_lt hrounds)
    rw [List.forall_mem_cons] at hentries
    obtain ⟨t, ht, hread⟩ := readEntry_entryText
      (hentries.1 (afterPart '\x7d' rest (entries.map entryText)) (endsValue_afterPart (.inr rfl)))
    rw [List.map_cons, afterPart_cons, ht]
    exact readMoreEntries_eq_ok_iff.mpr (.inr ⟨_, t, entry, _, entries, rfl, skipBlanks_cons rfl _,
      skipBlanks_cons rfl t, hread, ih hentries.2 (Nat.lt_of_succ_lt_succ hrounds)⟩)

/-- An object is read back from its text with its entries in their order, if each of their
    values is. That names may be repeated does not matter at this stage. -/
theorem readEntries_joinChars {entries : List (String × Json)}
    (hentries : ∀ entry ∈ entries, ∀ rest, EndsValue rest →
      readItem (entry.2.chars ++ rest) = .ok (entry.2, rest)) :
    readEntries readItem (joinChars [','] (entries.map entryText) ++ '\x7d' :: rest) =
      .ok (entries, rest) := by
  cases entries with
  | nil => exact readEntries_eq_ok_iff.mpr (.inl ⟨rfl, skipBlanks_cons rfl rest⟩)
  | cons entry entries =>
    rw [List.forall_mem_cons] at hentries
    obtain ⟨t, ht, hread⟩ := readEntry_entryText
      (hentries.1 (afterPart '\x7d' rest (entries.map entryText)) (endsValue_afterPart (.inr rfl)))
    have hjoin : joinChars [','] ((entry :: entries).map entryText) ++ '\x7d' :: rest = '"' :: t := by
      rw [List.map_cons, joinChars_cons, ← ht]
      rfl
    rw [hjoin]
    refine readEntries_eq_ok_iff.mpr (.inr ⟨t, entry, _, entries, rfl, skipBlanks_cons rfl t, hread,
      readMoreEntries_afterPart hentries.2 (Nat.lt_succ_of_lt ?_)⟩)
    simpa using length_lt_length_afterPart '\x7d' rest (entries.map entryText)

end Objects

/-- Negative numbers start with their sign and others with a digit, which are two
    cases of the grammar. -/
theorem startsWith_number {n : Number} (hrange : n.InRange)
    (hfloat : ∀ x, n = .float x → x.ReadsBack) (depth : Nat) {rest : List Char}
    (hrest : EndsNumber rest) : StartsWith depth (n.chars ++ rest) (.num n) rest := by
  have hread := NumberLiteral.readNumber_append n.wellFormed_literal
    (Number.toNumber?_literal hrange hfloat) hrest
  obtain ⟨c, cs, hchars, hdigit⟩ := NumberLiteral.head_unsignedChars n.wellFormed_literal
  rw [← Number.chars_literal, NumberLiteral.chars]
  split
  next hnegative =>
    rw [hnegative] at hread
    exact .negative hread
  next hnegative =>
    rw [Bool.not_eq_true] at hnegative
    rw [hnegative, hchars, List.cons_append] at hread
    rw [hchars, List.cons_append]
    exact .number hdigit hread

theorem readValue_of_startsWith {value : Json} {depth : Nat} {rest : List Char}
    (h : StartsWith depth (value.chars ++ rest) value rest) :
    readValue depth (value.chars ++ rest) = .ok (value, rest) := by
  obtain ⟨c, cs, hchars, hblank, -⟩ := value.exists_chars_eq_cons
  rw [readValue_eq_ok_iff]
  rw [hchars, List.cons_append] at h ⊢
  rwa [skipBlanks_cons hblank]

/-- The text of a value, whatever ends it, starts with that value. The induction is on the
    value, with the depth that is left as a bound on how deep it is nested. -/
theorem startsWith_chars {value : Json} (hrange : ∀ n, value.HasNumber n → n.InRange)
    (hfloats : value.FloatsReadBack) {depth : Nat} (hdepth : value.nesting ≤ depth) {rest : List Char}
    (hrest : EndsValue rest) : StartsWith depth (value.chars ++ rest) value rest := by
  induction value generalizing depth rest with
  | null => exact .null
  | bool b =>
    cases b with
    | false => exact .false
    | true => exact .true
  | num n =>
    refine startsWith_number (hrange n (.num n)) ?_ depth hrest.endsNumber
    rintro x rfl
    exact hfloats x (.num _)
  | str s =>
    have hread : StartsWith depth _ _ rest := .str (readQuoted_escaped s.toList rest)
    simpa [chars, quotedChars] using hread
  | arr items ih =>
    obtain _ | depth := depth
    · simp [nesting] at hdepth
    rw [nesting_arr_le_iff] at hdepth
    have hitems : readItems (readValue depth) (joinChars [','] (items.map chars) ++ ']' :: rest) =
        .ok (items, rest) := by
      refine readItems_joinChars fun x hx rest hrest => readValue_of_startsWith ?_
      exact ih x hx (fun n hn => hrange n (.item hx hn)) (fun y hy => hfloats y (.item hx hy))
        (hdepth x hx) hrest
    simpa [chars, itemChars_eq_map] using StartsWith.arr hitems
  | obj entries ih =>
    obtain _ | depth := depth
    · simp [nesting] at hdepth
    rw [nesting_obj_le_iff] at hdepth
    have hentries : readEntries (readValue depth)
        (joinChars [','] (entries.map entryText) ++ '\x7d' :: rest) = .ok (entries, rest) := by
      refine readEntries_joinChars fun entry hentry rest hrest => readValue_of_startsWith ?_
      exact ih entry hentry (fun n hn => hrange n (.entry hentry hn))
        (fun y hy => hfloats y (.entry hentry hy)) (hdepth entry hentry) hrest
    have htext : entries.map entryText = entryChars entries := (entryChars_eq_map entries).symm
    rw [htext] at hentries
    simpa [chars] using StartsWith.obj hentries

end Printed

section LastWins

/-- Where no name is repeated there is nothing to settle. -/
theorem lastWins_eq_self {value : Json} (h : value.NamesDistinct) : value.lastWins = value := by
  induction value with
  | null | bool | num | str => rfl
  | arr items ih =>
    have hitems : items.map lastWins = items :=
      (List.map_congr_left fun x hx => ih x hx (h.item hx)).trans (List.map_id items)
    rw [lastWins, lastWinsItems_eq_map, hitems]
  | obj entries ih =>
    have hentries : (entries.map fun entry => (entry.1, entry.2.lastWins)) = entries := by
      refine (List.map_congr_left fun entry hentry => ?_).trans (List.map_id entries)
      rw [ih entry hentry (h.entry hentry)]
      rfl
    rw [lastWins, lastWinsEntries_eq_map, hentries, Entries.ofList_eq_self h.names]

/-- Settling repeated names makes no number up. -/
theorem HasNumber.of_lastWins {value : Json} {n : Number} (h : value.lastWins.HasNumber n) :
    value.HasNumber n := by
  induction value with
  | null | bool | num | str => exact h
  | arr items ih =>
    rw [lastWins, lastWinsItems_eq_map] at h
    cases h with
    | item hx h =>
      obtain ⟨source, hsource, rfl⟩ := List.mem_map.mp hx
      exact .item hsource (ih source hsource h)
  | obj entries ih =>
    rw [lastWins, lastWinsEntries_eq_map] at h
    cases h with
    | entry hx h =>
      obtain ⟨entry, hentry, heq⟩ := List.mem_map.mp ((Entries.ofList_spec _).2 hx)
      cases heq
      exact .entry hentry (ih entry hentry h)

/-- Settling repeated names nests nothing deeper. -/
theorem nesting_lastWins_le {value : Json} {depth : Nat} (h : value.nesting ≤ depth) :
    value.lastWins.nesting ≤ depth := by
  induction value generalizing depth with
  | null | bool | num | str => exact h
  | arr items ih =>
    obtain _ | depth := depth
    · simp [nesting] at h
    rw [nesting_arr_le_iff] at h
    rw [lastWins, lastWinsItems_eq_map, nesting_arr_le_iff, List.forall_mem_map]
    exact fun x hx => ih x hx (h x hx)
  | obj entries ih =>
    obtain _ | depth := depth
    · simp [nesting] at h
    rw [nesting_obj_le_iff] at h
    rw [lastWins, lastWinsEntries_eq_map, nesting_obj_le_iff]
    intro entry hentry
    obtain ⟨source, hsource, rfl⟩ := List.mem_map.mp ((Entries.ofList_spec _).2 hentry)
    exact ih source hsource (h source hsource)

end LastWins

section Read

variable {readItem : List Char → Except ReadError (Parsed Json)} {P : Json → Prop}
  (hitem : ∀ s x rest, readItem s = .ok (x, rest) → P x) {s rest : List Char}

include hitem

theorem forall_of_readMoreItems {rounds index : Nat} {items : List Json}
    (h : readMoreItems readItem rounds index s = .ok (items, rest)) : ∀ x ∈ items, P x := by
  induction rounds generalizing index s items with
  | zero => cases h
  | succ rounds ih =>
    obtain ⟨rfl, -⟩ | ⟨_, _, _, x, _, more, rfl, -, -, -, hx, hmore⟩ := readMoreItems_eq_ok_iff.mp h
    · simp
    · exact List.forall_mem_cons.mpr ⟨hitem _ x _ hx, ih hmore⟩

/-- What holds of all that the reader of items gives holds of all items of a list. -/
theorem forall_of_readItems {items : List Json} (h : readItems readItem s = .ok (items, rest)) :
    ∀ x ∈ items, P x := by
  obtain ⟨rfl, -⟩ | ⟨_, _, x, _, more, rfl, -, -, hx, hmore⟩ := readItems_eq_ok_iff.mp h
  · simp
  · exact List.forall_mem_cons.mpr ⟨hitem _ x _ hx, forall_of_readMoreItems hitem hmore⟩

theorem of_readEntry {entry : String × Json} (h : readEntry readItem s = .ok (entry, rest)) :
    P entry.2 := by
  obtain ⟨_, _, _, -, -, -, hvalue⟩ := readEntry_eq_ok_iff.mp h
  exact hitem _ entry.2 _ hvalue

theorem forall_of_readMoreEntries {rounds : Nat} {entries : List (String × Json)}
    (h : readMoreEntries readItem rounds s = .ok (entries, rest)) : ∀ entry ∈ entries, P entry.2 := by
  induction rounds generalizing s entries with
  | zero => cases h
  | succ rounds ih =>
    obtain ⟨rfl, -⟩ | ⟨_, _, entry, _, more, rfl, -, -, hentry, hmore⟩ :=
      readMoreEntries_eq_ok_iff.mp h
    · simp
    · exact List.forall_mem_cons.mpr ⟨of_readEntry hitem hentry, ih hmore⟩

/-- The same for the values of an object. -/
theorem forall_of_readEntries {entries : List (String × Json)}
    (h : readEntries readItem s = .ok (entries, rest)) : ∀ entry ∈ entries, P entry.2 := by
  obtain ⟨rfl, -⟩ | ⟨_, entry, _, more, rfl, -, hentry, hmore⟩ := readEntries_eq_ok_iff.mp h
  · simp
  · exact List.forall_mem_cons.mpr
      ⟨of_readEntry hitem hentry, forall_of_readMoreEntries hitem hmore⟩

end Read

theorem inRange_of_readNumber {negative : Bool} {s rest : List Char} {n : Number}
    (h : readNumber negative s = .ok (n, rest)) : n.InRange := by
  obtain ⟨_, _, _, _, _, -, -, -, hvalue⟩ := readNumber_eq_ok_iff.mp h
  exact NumberLiteral.inRange_of_toNumber? hvalue

/-- What is read is nested no deeper than is allowed, and its integers fit 64
    bits. The induction is on the depth that is left, which goes down by one at
    every bracket. -/
theorem bounds_of_readValue {depth : Nat} {s rest : List Char} {value : Json}
    (h : readValue depth s = .ok (value, rest)) :
    value.nesting ≤ depth ∧ ∀ n, value.HasNumber n → n.InRange := by
  induction depth using Nat.strongRecOn generalizing s value rest with
  | ind depth ih =>
    rw [readValue_eq_ok_iff] at h
    generalize skipBlanks s = t at h
    cases h with
    | null | true | false | str =>
      refine ⟨Nat.zero_le _, fun n hn => ?_⟩
      cases hn
    | negative hread | number _ hread =>
      refine ⟨Nat.zero_le _, fun m hm => ?_⟩
      rw [hasNumber_num.mp hm]
      exact inRange_of_readNumber hread
    | arr hread =>
      have hitems := forall_of_readItems (fun _ _ _ => ih _ (Nat.lt_succ_self _)) hread
      refine ⟨nesting_arr_le_iff.mpr fun x hx => (hitems x hx).1, fun n hn => ?_⟩
      cases hn with
      | item hx hn => exact (hitems _ hx).2 n hn
    | obj hread =>
      have hentries := forall_of_readEntries (fun _ _ _ => ih _ (Nat.lt_succ_self _)) hread
      refine ⟨nesting_obj_le_iff.mpr fun entry hentry => (hentries entry hentry).1, fun n hn => ?_⟩
      cases hn with
      | entry hx hn => exact (hentries _ hx).2 n hn

/-- Every document that is read is well formed and not nested too deep. These are the
    conditions under which it is read back from its text, its doubles apart. -/
theorem wellFormed_of_parse {text : String} {value : Json} (h : parse text = .ok value) :
    value.WellFormed ∧ value.nesting ≤ maxNesting := by
  obtain ⟨first, rest, hread, -, rfl⟩ := parse_eq_ok_iff.mp h
  obtain ⟨hnesting, hrange⟩ := bounds_of_readValue hread
  exact ⟨⟨namesDistinct_lastWins first, fun n hn => hrange n hn.of_lastWins⟩,
    nesting_lastWins_le hnesting⟩

/-- A value is read back from its text, with the same numbers and kinds of numbers, the same
    strings and the same order of entries. The three conditions hold of every document that
    was read, but for doubles that are rounded on the way. -/
theorem parse_compact {value : Json} (h : value.WellFormed) (hfloats : value.FloatsReadBack)
    (hnesting : value.nesting ≤ maxNesting) : parse value.compact = .ok value := by
  have hends : EndsValue [] := by simp [EndsValue]
  have hread := readValue_of_startsWith (startsWith_chars h.numbers hfloats hnesting hends)
  rw [List.append_nil] at hread
  refine parse_eq_ok_iff.mpr ⟨value, [], ?_, rfl, lastWins_eq_self h.names⟩
  rwa [readFirst, compact, String.toList_ofList]

-- The number written `10e29` is read as a double that is printed as `9.999999999999999e+29`, and
-- that is read as its neighbour.
example : ¬ Double.ReadsBack
    ⟨false, 7105427357601001, 47, by decide, by decide, by decide, .inr (by decide)⟩ := by
  decide +kernel

section Parts

variable {P : Json → Prop} (hitem : ∀ items, P (.arr items) → ∀ x ∈ items, P x)
  (hentry : ∀ entries, P (.obj entries) → ∀ entry ∈ entries, P entry.2)

include hitem hentry

/-- One step of a pointer leads to an item or an entry. -/
theorem of_pointerStep? {value part : Json} {step : String}
    (h : value.pointerStep? step = some part) (hvalue : P value) : P part := by
  unfold pointerStep? at h
  split at h
  next entries => exact hentry entries hvalue _ (Entries.mem_of_lookup h)
  next items =>
    obtain ⟨i, -, hi⟩ := Option.bind_eq_some_iff.mp h
    exact hitem items hvalue part (List.mem_of_getElem? hi)
  next => cases h

theorem of_pointerSteps {value part : Json} {steps : List String}
    (h : steps.foldlM (fun value step =>
      value.pointerStep? ((step.replace "~1" "/").replace "~0" "~")) value = some part)
    (hvalue : P value) : P part := by
  induction steps generalizing value with
  | nil =>
    cases h
    exact hvalue
  | cons step steps ih =>
    rw [List.foldlM_cons] at h
    obtain ⟨next, hnext, hrest⟩ := Option.bind_eq_some_iff.mp h
    exact ih hrest (of_pointerStep? hitem hentry hnext hvalue)

/-- What holds of a value and goes over to all that stands in it holds of the part
    that a pointer selects, however its steps are escaped. -/
theorem of_pointer? {value part : Json} {pointer : String} (h : value.pointer? pointer = some part)
    (hvalue : P value) : P part := by
  unfold pointer? at h
  split at h
  next =>
    cases h
    exact hvalue
  next => exact of_pointerSteps hitem hentry h hvalue
  next => cases h

end Parts

end Json

end SchemaTypes
