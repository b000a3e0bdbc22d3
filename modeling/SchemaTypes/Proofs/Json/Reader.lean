import Mathlib.Data.List.TakeWhile
import SchemaTypes.Proofs.Json.Basic
import SchemaTypes.Proofs.Number.Text

namespace SchemaTypes

variable {ε α β : Type}

/-- Telling where an error came up changes no result. -/
theorem underStep_eq_ok_iff {step : JsonStep} {x : Except (Located ε) α} {a : α} :
    underStep step x = .ok a ↔ x = .ok a := by
  cases x <;> simp [underStep]

namespace Json

/-- Reading `s` takes the part of it in front of `rest`, and takes the same part
    of every text that goes on in an allowed way behind it. -/
def Takes (read : List Char → Except ε (Parsed α)) (allowed : List Char → Prop) (s : List Char) (a : α)
    (rest : List Char) : Prop :=
  ∃ front, s = front ++ rest ∧ ∀ tail, allowed tail → read (front ++ tail) = .ok (a, tail)

/-- Fewer texts behind the part that is taken are allowed just as well. -/
theorem Takes.mono {read : List Char → Except ε (Parsed α)} {allowed allowed' : List Char → Prop}
    {s rest : List Char} {a : α} (h : Takes read allowed s a rest)
    (himp : ∀ tail, allowed' tail → allowed tail) : Takes read allowed' s a rest := by
  obtain ⟨front, hs, hfront⟩ := h
  exact ⟨front, hs, fun tail htail => hfront tail (himp tail htail)⟩

/-- A reader that does not look further than at the first character behind what it takes. -/
def Local (read : List Char → Except ε (Parsed α)) : Prop :=
  ∀ ⦃s a rest⦄, read s = .ok (a, rest) → Takes read (·.head? = rest.head?) s a rest

/-- A reader that looks at nothing behind what it takes. -/
def Closed (read : List Char → Except ε (Parsed α)) : Prop :=
  ∀ ⦃s a rest⦄, read s = .ok (a, rest) → Takes read (fun _ => True) s a rest

theorem head?_append_eq {front tail rest : List Char} (h : tail.head? = rest.head?) :
    (front ++ tail).head? = (front ++ rest).head? := by
  rw [List.head?_append, List.head?_append, h]

theorem head?_append_eq_of_ne_nil {front : List Char} (h : front ≠ []) (tail rest : List Char) :
    (front ++ tail).head? = (front ++ rest).head? := by
  rw [List.head?_append_of_ne_nil _ h, List.head?_append_of_ne_nil _ h]

section Blanks

variable {s t : List Char} {c : Char}

theorem exists_blanks (h : skipBlanks s = c :: t) :
    ∃ blanks, s = blanks ++ c :: t ∧ ∀ u, skipBlanks (blanks ++ c :: u) = c :: u := by
  have hblank : isBlank c = false := by
    have hhead := List.head?_dropWhile_not isBlank s
    rw [show s.dropWhile isBlank = c :: t from h] at hhead
    simpa using hhead
  refine ⟨s.takeWhile isBlank, ?_, fun u => ?_⟩
  · rw [← h, skipBlanks, List.takeWhile_append_dropWhile]
  · rw [skipBlanks, List.dropWhile_append_of_pos fun c => List.mem_takeWhile_imp,
      List.dropWhile_cons_of_neg (by simp [hblank])]

/-- The blanks in front of a character, with the character. Any text may follow
    them in place of the one that does. -/
theorem exists_lead (h : skipBlanks s = c :: t) :
    ∃ lead ≠ [], s = lead ++ t ∧ ∀ u, skipBlanks (lead ++ u) = c :: u := by
  obtain ⟨blanks, rfl, hblanks⟩ := exists_blanks h
  refine ⟨blanks ++ [c], by simp, by simp, fun u => ?_⟩
  rw [List.append_assoc, List.singleton_append, hblanks]

/-- It is enough to look at texts behind their blanks, since these may be put in
    front of any text. -/
theorem takes_of_skipBlanks {read : List Char → Except ε (Parsed α)} {allowed : List Char → Prop}
    {front rest : List Char} {a : α} (hs : skipBlanks s = c :: (front ++ rest))
    (h : ∀ tail, allowed tail → ∀ u, skipBlanks u = c :: (front ++ tail) → read u = .ok (a, tail)) :
    Takes read allowed s a rest := by
  obtain ⟨lead, -, rfl, hlead⟩ := exists_lead hs
  refine ⟨lead ++ front, (List.append_assoc _ _ _).symm, fun tail htail => h tail htail _ ?_⟩
  rw [List.append_assoc, hlead]

/-- What a local reader takes behind some blanks, with the blanks. It is taken
    again wherever the next character is the same. -/
theorem Local.exists_front {read : List Char → Except ε (Parsed α)} (hlocal : Local read) {a : α}
    {rest : List Char} (hs : skipBlanks s = c :: t) (hread : read (c :: t) = .ok (a, rest)) :
    ∃ front, s = front ++ rest ∧ ∀ tail, tail.head? = rest.head? →
      ∃ u, skipBlanks (front ++ tail) = c :: u ∧ read (c :: u) = .ok (a, tail) := by
  obtain ⟨blanks, rfl, hblanks⟩ := exists_blanks hs
  obtain ⟨front, hfront, hread⟩ := hlocal hread
  refine ⟨blanks ++ front, by rw [List.append_assoc, hfront], fun tail htail => ?_⟩
  obtain ⟨u, hu⟩ : ∃ u, front ++ tail = c :: u := by
    apply List.head?_eq_some_iff.mp
    rw [head?_append_eq htail, ← hfront, List.head?_cons]
  exact ⟨u, by rw [List.append_assoc, hu, hblanks], hu ▸ hread tail htail⟩

end Blanks

section Scalars

/-- A word is read just if it is there, letter for letter. -/
theorem readLetters_eq_ok_iff {letters s rest : List Char} :
    readLetters letters s = .ok rest ↔ s = letters ++ rest := by
  induction letters generalizing s with
  | nil => simp [readLetters]
  | cons letter letters ih =>
    cases s with
    | nil => simp [readLetters]
    | cons c s =>
      rw [readLetters]
      split
      next heq => simp [heq, ih]
      next hne => simp [hne]

/-- Digits are read up to the first character that is none, so that this one
    matters and nothing behind it. -/
theorem local_readDigits : Local readDigits := by
  intro s digits rest h
  have hparts : s.takeWhile Char.isDigit = digits ∧ s.dropWhile Char.isDigit = rest ∧ digits ≠ [] := by
    unfold readDigits at h
    split at h
    · cases h
    · cases h
    next hnil _ =>
      cases h
      exact ⟨rfl, rfl, hnil⟩
  obtain ⟨hdigits, hrest, hnil⟩ := hparts
  refine ⟨digits, by rw [← hdigits, ← hrest, List.takeWhile_append_dropWhile], fun tail htail => ?_⟩
  refine NumberLiteral.readDigits_append ⟨hnil, fun c hc => ?_⟩ fun c hc => ?_
  · exact List.mem_takeWhile_imp (hdigits ▸ hc)
  · have hhead := List.head?_dropWhile_not Char.isDigit s
    rw [hrest, ← htail, Option.mem_def.mp hc] at hhead
    simpa using hhead

theorem readWhole_eq_ok_iff {s digits rest : List Char} :
    readWhole s = .ok (digits, rest) ↔
      readDigits s = .ok (digits, rest) ∧ ∀ digit more, digits ≠ '0' :: digit :: more := by
  unfold readWhole
  cases hread : readDigits s with
  | error e => simp [bind, Except.bind]
  | ok read =>
    simp only [bind, Except.bind]
    split
    next digit more _ =>
      refine ⟨nofun, fun ⟨hread, hlone⟩ => ?_⟩
      cases hread
      exact absurd rfl (hlone digit more)
    next hlone =>
      refine ⟨fun h => ⟨h, ?_⟩, And.left⟩
      cases h
      exact hlone

theorem local_readWhole : Local readWhole := by
  intro s digits rest h
  obtain ⟨hdigits, hlone⟩ := readWhole_eq_ok_iff.mp h
  obtain ⟨front, hs, hfront⟩ := local_readDigits hdigits
  exact ⟨front, hs, fun tail htail => readWhole_eq_ok_iff.mpr ⟨hfront tail htail, hlone⟩⟩

theorem local_readFraction : Local readFraction := by
  intro s fraction rest h
  unfold readFraction at h
  split at h
  next =>
    obtain ⟨⟨digits, _⟩, hdigits, h⟩ := bind_eq_ok_iff.mp h
    cases h
    obtain ⟨front, rfl, hfront⟩ := local_readDigits hdigits
    exact ⟨'.' :: front, rfl, fun tail htail => bind_eq_ok_iff.mpr ⟨_, hfront tail htail, rfl⟩⟩
  next hpoint =>
    cases h
    refine ⟨[], rfl, fun tail htail => ?_⟩
    rw [List.nil_append]
    unfold readFraction
    split
    next =>
      obtain ⟨rest', hrest⟩ := List.head?_eq_some_iff.mp htail.symm
      exact absurd hrest (hpoint rest')
    next => rfl

/-- The sign at the front of an exponent, and what follows it. -/
def splitSign : List Char → Bool × List Char
  | '+' :: s => (false, s)
  | '-' :: s => (true, s)
  | s => (false, s)

theorem readExponent_cons {c : Char} (hmark : c = 'e' ∨ c = 'E') (s : List Char) :
    readExponent (c :: s) = (do
      let p ← readDigits (splitSign s).2
      .ok (some ((splitSign s).1, p.1), p.2)) := by
  rw [readExponent.eq_def]
  simp only [if_pos hmark]
  rfl

theorem readExponent_cons_of_not_mark {c : Char} (hmark : ¬ (c = 'e' ∨ c = 'E')) (s : List Char) :
    readExponent (c :: s) = .ok (none, c :: s) := by
  rw [readExponent.eq_def]
  simp only [if_neg hmark]

theorem exists_sign (s : List Char) :
    ∃ front, s = front ++ (splitSign s).2 ∧ ∀ tail, tail.head? = (splitSign s).2.head? →
      splitSign (front ++ tail) = ((splitSign s).1, tail) := by
  fun_cases splitSign s
  case case1 s => exact ⟨['+'], rfl, fun _ _ => rfl⟩
  case case2 s => exact ⟨['-'], rfl, fun _ _ => rfl⟩
  case case3 hplus hminus =>
    refine ⟨[], rfl, fun tail htail => ?_⟩
    rw [List.nil_append]
    unfold splitSign
    split
    next =>
      obtain ⟨s', hs⟩ := List.head?_eq_some_iff.mp htail.symm
      exact absurd hs (hplus s')
    next =>
      obtain ⟨s', hs⟩ := List.head?_eq_some_iff.mp htail.symm
      exact absurd hs (hminus s')
    next => rfl

/-- An exponent may be missing. Then nothing is taken and the next character shows it. -/
theorem local_readExponent : Local readExponent := by
  intro s exponent rest h
  match s with
  | [] =>
    cases h
    refine ⟨[], rfl, fun tail htail => ?_⟩
    rw [List.head?_eq_none_iff.mp htail]
    rfl
  | c :: s =>
    by_cases hmark : c = 'e' ∨ c = 'E'
    · rw [readExponent_cons hmark] at h
      obtain ⟨⟨digits, _⟩, hdigits, h⟩ := bind_eq_ok_iff.mp h
      cases h
      obtain ⟨sign, hs, hsign⟩ := exists_sign s
      obtain ⟨front, hrest, hfront⟩ := local_readDigits hdigits
      refine ⟨c :: (sign ++ front), ?_, fun tail htail => ?_⟩
      · rw [List.cons_append, List.append_assoc, ← hrest, ← hs]
      · rw [List.cons_append, List.append_assoc, readExponent_cons hmark,
          hsign _ (hrest ▸ head?_append_eq htail)]
        exact bind_eq_ok_iff.mpr ⟨_, hfront tail htail, rfl⟩
    · rw [readExponent_cons_of_not_mark hmark] at h
      cases h
      refine ⟨[], rfl, fun tail htail => ?_⟩
      obtain ⟨tail, rfl⟩ := List.head?_eq_some_iff.mp htail
      rw [List.nil_append, readExponent_cons_of_not_mark hmark]

/-- A number is a literal that has been read in three parts and has a value. The
    literal is put together from the parts and need not be read again. -/
theorem readNumber_eq_ok_iff {negative : Bool} {s rest : List Char} {n : Number} :
    readNumber negative s = .ok (n, rest) ↔
      ∃ whole rest₁ fraction rest₂ exponent, readWhole s = .ok (whole, rest₁) ∧
        readFraction rest₁ = .ok (fraction, rest₂) ∧ readExponent rest₂ = .ok (exponent, rest) ∧
        NumberLiteral.toNumber? ⟨negative, whole, fraction, exponent⟩ = some n := by
  constructor
  · intro h
    obtain ⟨⟨whole, rest₁⟩, hwhole, h₁⟩ := bind_eq_ok_iff.mp h
    obtain ⟨⟨fraction, rest₂⟩, hfraction, h₂⟩ := bind_eq_ok_iff.mp h₁
    obtain ⟨⟨exponent, rest₃⟩, hexponent, h₃⟩ := bind_eq_ok_iff.mp h₂
    refine ⟨whole, rest₁, fraction, rest₂, exponent, hwhole, hfraction, ?_⟩
    cases hvalue : NumberLiteral.toNumber? ⟨negative, whole, fraction, exponent⟩ with
    | none =>
      simp only [hvalue] at h₃
      cases h₃
    | some n =>
      simp only [hvalue] at h₃
      cases h₃
      exact ⟨hexponent, rfl⟩
  · rintro ⟨whole, rest₁, fraction, rest₂, exponent, hwhole, hfraction, hexponent, hvalue⟩
    refine bind_eq_ok_iff.mpr ⟨_, hwhole, bind_eq_ok_iff.mpr ⟨_, hfraction, bind_eq_ok_iff.mpr
      ⟨_, hexponent, ?_⟩⟩⟩
    simp only [hvalue]

/-- Only the character behind a number matters for where it ends. -/
theorem local_readNumber (negative : Bool) : Local (readNumber negative) := by
  intro s n rest h
  obtain ⟨whole, _, fraction, _, exponent, hwhole, hfraction, hexponent, hvalue⟩ :=
    readNumber_eq_ok_iff.mp h
  obtain ⟨front₁, rfl, hfront₁⟩ := local_readWhole hwhole
  obtain ⟨front₂, rfl, hfront₂⟩ := local_readFraction hfraction
  obtain ⟨front₃, rfl, hfront₃⟩ := local_readExponent hexponent
  refine ⟨front₁ ++ (front₂ ++ front₃), by simp only [List.append_assoc], fun tail htail => ?_⟩
  have htail₂ : (front₃ ++ tail).head? = (front₃ ++ rest).head? := head?_append_eq htail
  rw [List.append_assoc, List.append_assoc]
  exact readNumber_eq_ok_iff.mpr ⟨whole, _, fraction, _, exponent, hfront₁ _ (head?_append_eq htail₂),
    hfront₂ _ htail₂, hfront₃ tail htail, hvalue⟩

/-- Four hexadecimal digits and their value. -/
theorem readHex_eq_ok_iff {s rest : List Char} {unit : Nat} :
    readHex s = .ok (unit, rest) ↔
      ∃ a b c d, s = a :: b :: c :: d :: rest ∧ ∃ va ∈ hexValue? a, ∃ vb ∈ hexValue? b,
        ∃ vc ∈ hexValue? c, ∃ vd ∈ hexValue? d, unit = ((va * 16 + vb) * 16 + vc) * 16 + vd := by
  constructor
  · intro h
    unfold readHex at h
    split at h
    next a b c d _ =>
      split at h
      next va vb vc vd ha hb hc hd =>
        cases h
        exact ⟨a, b, c, d, rfl, va, ha, vb, hb, vc, hc, vd, hd, rfl⟩
      next => cases h
    next => cases h
  · rintro ⟨a, b, c, d, rfl, va, ha, vb, hb, vc, hc, vd, hd, rfl⟩
    simp only [Option.mem_def] at ha hb hc hd
    simp only [readHex, ha, hb, hc, hd]

theorem closed_readHex : Closed readHex := by
  intro s unit rest h
  obtain ⟨a, b, c, d, rfl, hvalues⟩ := readHex_eq_ok_iff.mp h
  exact ⟨[a, b, c, d], rfl, fun tail _ => readHex_eq_ok_iff.mpr ⟨a, b, c, d, rfl, hvalues⟩⟩

theorem readPairing_eq_ok_iff {expected : Char} {s rest : List Char} :
    readPairing expected s = .ok rest ↔ s = expected :: rest := by
  unfold readPairing
  split
  next => simp
  next c s =>
    split
    next heq => simp [heq]
    next hne => simp [hne]

/-- An escape shows by itself where it ends. Where it is the first half of a pair,
    the second half belongs to it, and without that half it is refused. -/
theorem closed_readUnicode : Closed readUnicode := by
  intro s c rest h
  obtain ⟨⟨unit, _⟩, hunit, h₁⟩ := bind_eq_ok_iff.mp h
  obtain ⟨front, rfl, hfront⟩ := closed_readHex hunit
  simp only at h₁
  split at h₁
  next => cases h₁
  next htrailing =>
  split at h₁
  next hleading =>
    obtain ⟨_, hslash, h₂⟩ := bind_eq_ok_iff.mp h₁
    obtain ⟨_, hu, h₃⟩ := bind_eq_ok_iff.mp h₂
    obtain ⟨⟨second, _⟩, hsecond, h₄⟩ := bind_eq_ok_iff.mp h₃
    rw [readPairing_eq_ok_iff] at hslash hu
    subst hslash hu
    obtain ⟨front', rfl, hfront'⟩ := closed_readHex hsecond
    simp only at h₄
    split at h₄
    next htrailing' =>
      simp only [Except.ok.injEq, Prod.mk.injEq] at h₄
      obtain ⟨rfl, rfl⟩ := h₄
      refine ⟨front ++ '\\' :: 'u' :: front', by simp, fun tail _ => ?_⟩
      rw [List.append_assoc]
      refine bind_eq_ok_iff.mpr ⟨_, hfront _ trivial, ?_⟩
      simp only [htrailing, hleading, List.cons_append, ↓reduceIte]
      refine bind_eq_ok_iff.mpr ⟨_, readPairing_eq_ok_iff.mpr rfl, bind_eq_ok_iff.mpr
        ⟨_, readPairing_eq_ok_iff.mpr rfl, bind_eq_ok_iff.mpr ⟨_, hfront' tail trivial, ?_⟩⟩⟩
      simp only [htrailing', ↓reduceIte]
    next => cases h₄
  next hleading =>
    cases h₁
    refine ⟨front, rfl, fun tail _ => bind_eq_ok_iff.mpr ⟨_, hfront tail trivial, ?_⟩⟩
    simp only [htrailing, hleading]
    rfl

theorem closed_readEscape : Closed readEscape := by
  intro s c rest h
  unfold readEscape at h
  split at h
  case h_1 | h_11 => cases h
  case h_10 =>
    obtain ⟨front, rfl, hfront⟩ := closed_readUnicode h
    exact ⟨'u' :: front, rfl, hfront⟩
  all_goals
    cases h
    exact ⟨[_], rfl, fun _ _ => rfl⟩

/-- A quoted text is over at its closing quote. -/
theorem closed_readQuoted : Closed readQuoted := by
  intro s cs rest h
  fun_induction readQuoted s generalizing cs rest
  case case1 | case3 | case4 | case6 | case7 => cases h
  case case2 =>
    cases h
    exact ⟨['"'], rfl, fun tail _ => by rw [List.singleton_append, readQuoted]⟩
  case case5 c _ hescape _ _ _ hread ih =>
    cases h
    obtain ⟨front, rfl, hfront⟩ := closed_readEscape hescape
    obtain ⟨front', rfl, hfront'⟩ := ih hread
    refine ⟨'\\' :: (front ++ front'), by simp, fun tail _ => ?_⟩
    rw [List.cons_append, List.append_assoc, readQuoted]
    split
    next hescape' =>
      rw [hfront _ trivial] at hescape'
      cases hescape'
    next hescape' =>
      rw [hfront _ trivial] at hescape'
      cases hescape'
      rw [hfront' tail trivial]
  case case8 c _ hquote hslash hcontrol _ _ hread ih =>
    cases h
    obtain ⟨front, rfl, hfront⟩ := ih hread
    refine ⟨c :: front, rfl, fun tail _ => ?_⟩
    rw [List.cons_append, readQuoted, if_neg hcontrol, hfront tail trivial]
    · exact hquote
    · exact hslash

end Scalars

section Lists

variable {readItem : List Char → Except ReadError (Parsed Json)} {rounds index : Nat}
  {s rest : List Char} {items : List Json}

/-- One round behind an item: the list is over, or a comma and one more item
    follow. A comma that nothing follows is no list. -/
theorem readMoreItems_eq_ok_iff :
    readMoreItems readItem (rounds + 1) index s = .ok (items, rest) ↔
      (items = [] ∧ skipBlanks s = ']' :: rest) ∨
      ∃ t c u item middle more, items = item :: more ∧ skipBlanks s = ',' :: t ∧
        skipBlanks t = c :: u ∧ c ≠ ']' ∧ readItem (c :: u) = .ok (item, middle) ∧
        readMoreItems readItem rounds (index + 1) middle = .ok (more, rest) := by
  constructor
  · intro h
    rw [readMoreItems] at h
    split at h
    next => cases h
    next hs =>
      cases h
      exact .inl ⟨rfl, hs⟩
    next t hs =>
      split at h
      next => cases h
      next => cases h
      next hnil hbracket =>
        obtain ⟨⟨item, middle⟩, hitem, h₁⟩ := bind_eq_ok_iff.mp h
        obtain ⟨⟨more, _⟩, hmore, h₂⟩ := bind_eq_ok_iff.mp h₁
        cases h₂
        obtain ⟨c, u, ht⟩ := List.exists_cons_of_ne_nil hnil
        refine .inr ⟨t, c, u, item, middle, more, rfl, hs, ht, ?_, ?_, hmore⟩
        · rintro rfl
          exact hbracket u ht
        · exact ht ▸ underStep_eq_ok_iff.mp hitem
    next => cases h
  · rintro (⟨rfl, hs⟩ | ⟨t, c, u, item, middle, more, rfl, hs, ht, hc, hitem, hmore⟩)
    · simp only [readMoreItems, hs]
    · simp only [readMoreItems, hs, ht]
      split
      next heq => cases heq
      next heq =>
        cases heq
        exact absurd rfl hc
      next =>
        exact bind_eq_ok_iff.mpr ⟨_, underStep_eq_ok_iff.mpr hitem, bind_eq_ok_iff.mpr ⟨_, hmore, rfl⟩⟩

/-- A list is empty or starts with an item. How many rounds are allowed for the
    rest is fixed by its length. -/
theorem readItems_eq_ok_iff :
    readItems readItem s = .ok (items, rest) ↔
      (items = [] ∧ skipBlanks s = ']' :: rest) ∨
      ∃ c u item middle more, items = item :: more ∧ skipBlanks s = c :: u ∧ c ≠ ']' ∧
        readItem (c :: u) = .ok (item, middle) ∧
        readMoreItems readItem (middle.length + 1) 1 middle = .ok (more, rest) := by
  constructor
  · intro h
    unfold readItems at h
    split at h
    next => cases h
    next hs =>
      cases h
      exact .inl ⟨rfl, hs⟩
    next hnil hbracket =>
      obtain ⟨⟨item, middle⟩, hitem, h₁⟩ := bind_eq_ok_iff.mp h
      obtain ⟨⟨more, _⟩, hmore, h₂⟩ := bind_eq_ok_iff.mp h₁
      cases h₂
      obtain ⟨c, u, hs⟩ := List.exists_cons_of_ne_nil hnil
      refine .inr ⟨c, u, item, middle, more, rfl, hs, ?_, ?_, hmore⟩
      · rintro rfl
        exact hbracket u hs
      · exact hs ▸ underStep_eq_ok_iff.mp hitem
  · rintro (⟨rfl, hs⟩ | ⟨c, u, item, middle, more, rfl, hs, hc, hitem, hmore⟩)
    · simp only [readItems, hs]
    · simp only [readItems, hs]
      split
      next heq => cases heq
      next heq =>
        cases heq
        exact absurd rfl hc
      next =>
        exact bind_eq_ok_iff.mpr ⟨_, underStep_eq_ok_iff.mpr hitem, bind_eq_ok_iff.mpr ⟨_, hmore, rfl⟩⟩

/-- Every round takes a character, so the number of rounds does not matter if it
    is large enough. Any text may follow the closing bracket. -/
theorem exists_front_of_readMoreItems (hlocal : Local readItem)
    (h : readMoreItems readItem rounds index s = .ok (items, rest)) :
    ∃ front ≠ [], s = front ++ rest ∧ ∀ tail rounds', front.length ≤ rounds' →
      readMoreItems readItem rounds' index (front ++ tail) = .ok (items, tail) := by
  induction rounds generalizing index s items with
  | zero => cases h
  | succ rounds ih =>
    obtain ⟨rfl, hs⟩ | ⟨t, c, u, item, middle, more, rfl, hs, ht, hc, hitem, hmore⟩ :=
      readMoreItems_eq_ok_iff.mp h
    · obtain ⟨lead, hnil, rfl, hlead⟩ := exists_lead hs
      refine ⟨lead, hnil, rfl, fun tail rounds' hrounds => ?_⟩
      have hpos := List.length_pos_of_ne_nil hnil
      obtain ⟨rounds', rfl⟩ : ∃ n, rounds' = n + 1 := Nat.exists_eq_add_one.mpr (by omega)
      exact readMoreItems_eq_ok_iff.mpr (.inl ⟨rfl, hlead tail⟩)
    · obtain ⟨lead, hnil, rfl, hlead⟩ := exists_lead hs
      obtain ⟨front₁, rfl, hfront₁⟩ := hlocal.exists_front ht hitem
      obtain ⟨front₂, hnil₂, rfl, hfront₂⟩ := ih hmore
      refine ⟨lead ++ (front₁ ++ front₂), by simp [hnil], by simp, fun tail rounds' hrounds => ?_⟩
      have hpos := List.length_pos_of_ne_nil hnil
      simp only [List.length_append] at hrounds
      obtain ⟨rounds', rfl⟩ : ∃ n, rounds' = n + 1 := Nat.exists_eq_add_one.mpr (by omega)
      obtain ⟨u, hu, hitem⟩ := hfront₁ (front₂ ++ tail) (head?_append_eq_of_ne_nil hnil₂ _ _)
      rw [List.append_assoc, List.append_assoc]
      exact readMoreItems_eq_ok_iff.mpr (.inr ⟨_, c, u, item, _, more, rfl, hlead _, hu, hc, hitem,
        hfront₂ tail rounds' (by omega)⟩)

/-- As many rounds as there are characters are enough. -/
theorem readMoreItems_of_length_le (hlocal : Local readItem)
    (h : readMoreItems readItem rounds index s = .ok (items, rest)) {rounds' : Nat}
    (hrounds : s.length ≤ rounds') : readMoreItems readItem rounds' index s = .ok (items, rest) := by
  obtain ⟨front, _, rfl, hfront⟩ := exists_front_of_readMoreItems hlocal h
  rw [List.length_append] at hrounds
  exact hfront rest rounds' (by omega)

/-- A list is over at its closing bracket. The reader of its items need not be
    closed, since a comma or the bracket follows each of them. -/
theorem closed_readItems (hlocal : Local readItem) : Closed (readItems readItem) := by
  intro s items rest h
  obtain ⟨rfl, hs⟩ | ⟨c, u, item, middle, more, rfl, hs, hc, hitem, hmore⟩ := readItems_eq_ok_iff.mp h
  · obtain ⟨lead, -, rfl, hlead⟩ := exists_lead hs
    exact ⟨lead, rfl, fun tail _ => readItems_eq_ok_iff.mpr (.inl ⟨rfl, hlead tail⟩)⟩
  · obtain ⟨front₁, rfl, hfront₁⟩ := hlocal.exists_front hs hitem
    obtain ⟨front₂, hnil, rfl, hfront₂⟩ := exists_front_of_readMoreItems hlocal hmore
    refine ⟨front₁ ++ front₂, by simp, fun tail _ => ?_⟩
    obtain ⟨u, hu, hitem⟩ := hfront₁ (front₂ ++ tail) (head?_append_eq_of_ne_nil hnil _ _)
    rw [List.append_assoc]
    refine readItems_eq_ok_iff.mpr (.inr ⟨c, u, item, front₂ ++ tail, more, rfl, hu, hc, hitem,
      hfront₂ tail _ ?_⟩)
    rw [List.length_append]
    omega

end Lists

section Objects

variable {readItem : List Char → Except ReadError (Parsed Json)} {rounds : Nat}
  {s rest : List Char} {entries : List (String × Json)}

theorem readColon_eq_ok_iff : readColon s = .ok rest ↔ skipBlanks s = ':' :: rest := by
  unfold readColon
  split
  next hs => simp [hs]
  next hs => simp [hs]
  next hcolon => exact ⟨nofun, fun hs => absurd hs (hcolon rest)⟩

/-- An entry is a quoted name, a colon and a value, with blanks on both sides of
    the colon. -/
theorem readEntry_eq_ok_iff {name : String} {value : Json} :
    readEntry readItem s = .ok ((name, value), rest) ↔
      ∃ key rest₁ rest₂, name = String.ofList key ∧ readQuoted s = .ok (key, rest₁) ∧
        skipBlanks rest₁ = ':' :: rest₂ ∧ readItem rest₂ = .ok (value, rest) := by
  constructor
  · intro h
    obtain ⟨⟨key, rest₁⟩, hkey, h₁⟩ := bind_eq_ok_iff.mp h
    obtain ⟨rest₂, hcolon, h₂⟩ := bind_eq_ok_iff.mp h₁
    obtain ⟨⟨value, _⟩, hvalue, h₃⟩ := bind_eq_ok_iff.mp h₂
    cases h₃
    exact ⟨key, rest₁, rest₂, rfl, underStep_eq_ok_iff.mp hkey, readColon_eq_ok_iff.mp hcolon,
      underStep_eq_ok_iff.mp hvalue⟩
  · rintro ⟨key, rest₁, rest₂, rfl, hkey, hcolon, hvalue⟩
    exact bind_eq_ok_iff.mpr ⟨_, underStep_eq_ok_iff.mpr hkey, bind_eq_ok_iff.mpr
      ⟨_, readColon_eq_ok_iff.mpr hcolon, bind_eq_ok_iff.mpr ⟨_, underStep_eq_ok_iff.mpr hvalue, rfl⟩⟩⟩

theorem local_readEntry (hlocal : Local readItem) : Local (readEntry readItem) := by
  rintro s ⟨name, value⟩ rest h
  obtain ⟨key, _, _, rfl, hkey, hcolon, hvalue⟩ := readEntry_eq_ok_iff.mp h
  obtain ⟨front₁, rfl, hfront₁⟩ := closed_readQuoted hkey
  obtain ⟨lead, -, rfl, hlead⟩ := exists_lead hcolon
  obtain ⟨front₂, rfl, hfront₂⟩ := hlocal hvalue
  refine ⟨front₁ ++ (lead ++ front₂), by simp only [List.append_assoc], fun tail htail => ?_⟩
  rw [List.append_assoc, List.append_assoc]
  exact readEntry_eq_ok_iff.mpr ⟨key, _, _, rfl, hfront₁ _ trivial, hlead _, hfront₂ tail htail⟩

/-- One round behind an entry, as for lists. -/
theorem readMoreEntries_eq_ok_iff :
    readMoreEntries readItem (rounds + 1) s = .ok (entries, rest) ↔
      (entries = [] ∧ skipBlanks s = '\x7d' :: rest) ∨
      ∃ t u entry middle more, entries = entry :: more ∧ skipBlanks s = ',' :: t ∧
        skipBlanks t = '"' :: u ∧ readEntry readItem u = .ok (entry, middle) ∧
        readMoreEntries readItem rounds middle = .ok (more, rest) := by
  constructor
  · intro h
    rw [readMoreEntries] at h
    split at h
    next => cases h
    next hs =>
      cases h
      exact .inl ⟨rfl, hs⟩
    next t hs =>
      split at h
      next => cases h
      next u ht =>
        obtain ⟨⟨entry, middle⟩, hentry, h₁⟩ := bind_eq_ok_iff.mp h
        obtain ⟨⟨more, _⟩, hmore, h₂⟩ := bind_eq_ok_iff.mp h₁
        cases h₂
        exact .inr ⟨t, u, entry, middle, more, rfl, hs, ht, hentry, hmore⟩
      next => cases h
      next => cases h
    next => cases h
  · rintro (⟨rfl, hs⟩ | ⟨t, u, entry, middle, more, rfl, hs, ht, hentry, hmore⟩)
    · simp only [readMoreEntries, hs]
    · simp only [readMoreEntries, hs, ht]
      exact bind_eq_ok_iff.mpr ⟨_, hentry, bind_eq_ok_iff.mpr ⟨_, hmore, rfl⟩⟩

theorem readEntries_eq_ok_iff :
    readEntries readItem s = .ok (entries, rest) ↔
      (entries = [] ∧ skipBlanks s = '\x7d' :: rest) ∨
      ∃ u entry middle more, entries = entry :: more ∧ skipBlanks s = '"' :: u ∧
        readEntry readItem u = .ok (entry, middle) ∧
        readMoreEntries readItem (middle.length + 1) middle = .ok (more, rest) := by
  constructor
  · intro h
    unfold readEntries at h
    split at h
    next => cases h
    next hs =>
      cases h
      exact .inl ⟨rfl, hs⟩
    next u hs =>
      obtain ⟨⟨entry, middle⟩, hentry, h₁⟩ := bind_eq_ok_iff.mp h
      obtain ⟨⟨more, _⟩, hmore, h₂⟩ := bind_eq_ok_iff.mp h₁
      cases h₂
      exact .inr ⟨u, entry, middle, more, rfl, hs, hentry, hmore⟩
    next => cases h
  · rintro (⟨rfl, hs⟩ | ⟨u, entry, middle, more, rfl, hs, hentry, hmore⟩)
    · simp only [readEntries, hs]
    · simp only [readEntries, hs]
      exact bind_eq_ok_iff.mpr ⟨_, hentry, bind_eq_ok_iff.mpr ⟨_, hmore, rfl⟩⟩

theorem exists_front_of_readMoreEntries (hlocal : Local readItem)
    (h : readMoreEntries readItem rounds s = .ok (entries, rest)) :
    ∃ front ≠ [], s = front ++ rest ∧ ∀ tail rounds', front.length ≤ rounds' →
      readMoreEntries readItem rounds' (front ++ tail) = .ok (entries, tail) := by
  induction rounds generalizing s entries with
  | zero => cases h
  | succ rounds ih =>
    obtain ⟨rfl, hs⟩ | ⟨t, u, entry, middle, more, rfl, hs, ht, hentry, hmore⟩ :=
      readMoreEntries_eq_ok_iff.mp h
    · obtain ⟨lead, hnil, rfl, hlead⟩ := exists_lead hs
      refine ⟨lead, hnil, rfl, fun tail rounds' hrounds => ?_⟩
      have hpos := List.length_pos_of_ne_nil hnil
      obtain ⟨rounds', rfl⟩ : ∃ n, rounds' = n + 1 := Nat.exists_eq_add_one.mpr (by omega)
      exact readMoreEntries_eq_ok_iff.mpr (.inl ⟨rfl, hlead tail⟩)
    · obtain ⟨lead, hnil, rfl, hlead⟩ := exists_lead hs
      obtain ⟨lead', -, rfl, hlead'⟩ := exists_lead ht
      obtain ⟨front₁, rfl, hfront₁⟩ := local_readEntry hlocal hentry
      obtain ⟨front₂, hnil₂, rfl, hfront₂⟩ := ih hmore
      refine ⟨lead ++ (lead' ++ (front₁ ++ front₂)), by simp [hnil], by simp only [List.append_assoc],
        fun tail rounds' hrounds => ?_⟩
      have hpos := List.length_pos_of_ne_nil hnil
      simp only [List.length_append] at hrounds
      obtain ⟨rounds', rfl⟩ : ∃ n, rounds' = n + 1 := Nat.exists_eq_add_one.mpr (by omega)
      simp only [List.append_assoc]
      exact readMoreEntries_eq_ok_iff.mpr (.inr ⟨_, _, entry, _, more, rfl, hlead _, hlead' _,
        hfront₁ _ (head?_append_eq_of_ne_nil hnil₂ _ _), hfront₂ tail rounds' (by omega)⟩)

theorem readMoreEntries_of_length_le (hlocal : Local readItem)
    (h : readMoreEntries readItem rounds s = .ok (entries, rest)) {rounds' : Nat}
    (hrounds : s.length ≤ rounds') : readMoreEntries readItem rounds' s = .ok (entries, rest) := by
  obtain ⟨front, _, rfl, hfront⟩ := exists_front_of_readMoreEntries hlocal h
  rw [List.length_append] at hrounds
  exact hfront rest rounds' (by omega)

/-- An object is over at its closing brace. -/
theorem closed_readEntries (hlocal : Local readItem) : Closed (readEntries readItem) := by
  intro s entries rest h
  obtain ⟨rfl, hs⟩ | ⟨u, entry, middle, more, rfl, hs, hentry, hmore⟩ := readEntries_eq_ok_iff.mp h
  · obtain ⟨lead, -, rfl, hlead⟩ := exists_lead hs
    exact ⟨lead, rfl, fun tail _ => readEntries_eq_ok_iff.mpr (.inl ⟨rfl, hlead tail⟩)⟩
  · obtain ⟨lead, -, rfl, hlead⟩ := exists_lead hs
    obtain ⟨front₁, rfl, hfront₁⟩ := local_readEntry hlocal hentry
    obtain ⟨front₂, hnil, rfl, hfront₂⟩ := exists_front_of_readMoreEntries hlocal hmore
    refine ⟨lead ++ (front₁ ++ front₂), by simp only [List.append_assoc], fun tail _ => ?_⟩
    rw [List.append_assoc, List.append_assoc]
    refine readEntries_eq_ok_iff.mpr (.inr ⟨_, entry, _, more, rfl, hlead _,
      hfront₁ _ (head?_append_eq_of_ne_nil hnil _ _), hfront₂ tail _ ?_⟩)
    rw [List.length_append]
    omega

end Objects

/-- The text starts with a value, without blanks in front of it, and goes on with `rest`. -/
inductive StartsWith : (depth : Nat) → List Char → Json → List Char → Prop where
  | null {depth : Nat} {rest : List Char} : StartsWith depth (['n', 'u', 'l', 'l'] ++ rest) .null rest
  | true {depth : Nat} {rest : List Char} :
      StartsWith depth (['t', 'r', 'u', 'e'] ++ rest) (.bool true) rest
  | false {depth : Nat} {rest : List Char} :
      StartsWith depth (['f', 'a', 'l', 's', 'e'] ++ rest) (.bool false) rest
  | negative {depth : Nat} {t rest : List Char} {n : Number} (hread : readNumber true t = .ok (n, rest)) :
      StartsWith depth ('-' :: t) (.num n) rest
  | number {depth : Nat} {c : Char} {t rest : List Char} {n : Number} (hdigit : c.isDigit = true)
      (hread : readNumber false (c :: t) = .ok (n, rest)) : StartsWith depth (c :: t) (.num n) rest
  | str {depth : Nat} {t cs rest : List Char} (hread : readQuoted t = .ok (cs, rest)) :
      StartsWith depth ('"' :: t) (.str (String.ofList cs)) rest
  | arr {depth : Nat} {t rest : List Char} {items : List Json}
      (hread : readItems (readValue depth) t = .ok (items, rest)) :
      StartsWith (depth + 1) ('[' :: t) (.arr items) rest
  | obj {depth : Nat} {t rest : List Char} {entries : List (String × Json)}
      (hread : readEntries (readValue depth) t = .ok (entries, rest)) :
      StartsWith (depth + 1) ('\x7b' :: t) (.obj entries) rest

section Values

variable {depth : Nat} {s rest : List Char} {value : Json}

/-- What a value starts with decides how it is read. The reader is used through
    this relation only, whose cases are those of the grammar. -/
theorem readValue_eq_ok_iff :
    readValue depth s = .ok (value, rest) ↔ StartsWith depth (skipBlanks s) value rest := by
  rw [readValue]
  constructor
  · intro h
    split at h
    next => cases h
    next hs =>
      obtain ⟨_, hletters, h⟩ := bind_eq_ok_iff.mp h
      cases h
      rw [hs, readLetters_eq_ok_iff.mp hletters]
      exact .null
    next hs =>
      obtain ⟨_, hletters, h⟩ := bind_eq_ok_iff.mp h
      cases h
      rw [hs, readLetters_eq_ok_iff.mp hletters]
      exact .true
    next hs =>
      obtain ⟨_, hletters, h⟩ := bind_eq_ok_iff.mp h
      cases h
      rw [hs, readLetters_eq_ok_iff.mp hletters]
      exact .false
    next hs =>
      obtain ⟨_, hread, h⟩ := bind_eq_ok_iff.mp h
      cases h
      exact hs ▸ .negative hread
    next hs =>
      obtain ⟨_, hread, h⟩ := bind_eq_ok_iff.mp h
      cases h
      exact hs ▸ .str hread
    next hs =>
      split at h
      next => cases h
      next =>
        obtain ⟨_, hread, h⟩ := bind_eq_ok_iff.mp h
        cases h
        exact hs ▸ .arr hread
    next hs =>
      split at h
      next => cases h
      next =>
        obtain ⟨_, hread, h⟩ := bind_eq_ok_iff.mp h
        cases h
        exact hs ▸ .obj hread
    next hs =>
      split at h
      next hdigit =>
        obtain ⟨_, hread, h⟩ := bind_eq_ok_iff.mp h
        cases h
        exact hs ▸ .number hdigit hread
      next => cases h
  · intro h
    generalize skipBlanks s = t at h
    cases h with
    | null | true | false => exact bind_eq_ok_iff.mpr ⟨_, readLetters_eq_ok_iff.mpr rfl, rfl⟩
    | negative hread | str hread | arr hread | obj hread => exact bind_eq_ok_iff.mpr ⟨_, hread, rfl⟩
    | number hdigit hread =>
      split
      case h_9 heq =>
        cases heq
        rw [if_pos hdigit]
        exact bind_eq_ok_iff.mpr ⟨_, hread, rfl⟩
      case h_1 heq => cases heq
      all_goals next heq =>
        cases heq
        exact absurd hdigit (by decide)

/-- Only behind a number does it matter what follows, and there only the next
    character. Every other value shows by itself where it ends. -/
theorem takes_readValue (h : readValue depth s = .ok (value, rest)) :
    Takes (readValue depth) (fun tail => value.kind = .number → tail.head? = rest.head?) s value rest := by
  induction depth using Nat.strongRecOn generalizing s value rest with
  | ind depth ih =>
    rw [readValue_eq_ok_iff] at h
    generalize hs : skipBlanks s = t at h
    -- An inner value may be a number, so it is only local. The bracket behind it closes the outer one.
    have hlocal {inner : Nat} (hinner : inner < depth) : Local (readValue inner) :=
      fun _ _ _ h => (ih inner hinner h).mono fun _ htail _ => htail
    cases h with
    | null => exact takes_of_skipBlanks hs fun _ _ u hu => readValue_eq_ok_iff.mpr (hu ▸ .null)
    | true => exact takes_of_skipBlanks hs fun _ _ u hu => readValue_eq_ok_iff.mpr (hu ▸ .true)
    | false => exact takes_of_skipBlanks hs fun _ _ u hu => readValue_eq_ok_iff.mpr (hu ▸ .false)
    | negative hread =>
      obtain ⟨front, rfl, hfront⟩ := local_readNumber true hread
      exact takes_of_skipBlanks hs fun tail htail u hu =>
        readValue_eq_ok_iff.mpr (hu ▸ .negative (hfront tail (htail rfl)))
    | number hdigit hread =>
      obtain ⟨front, hs, hfront⟩ := (local_readNumber false).exists_front hs hread
      refine ⟨front, hs, fun tail htail => ?_⟩
      obtain ⟨u, hu, hread⟩ := hfront tail (htail rfl)
      exact readValue_eq_ok_iff.mpr (hu ▸ .number hdigit hread)
    | str hread =>
      obtain ⟨front, rfl, hfront⟩ := closed_readQuoted hread
      exact takes_of_skipBlanks hs fun tail _ u hu =>
        readValue_eq_ok_iff.mpr (hu ▸ .str (hfront tail trivial))
    | arr hread =>
      obtain ⟨front, rfl, hfront⟩ := closed_readItems (hlocal (Nat.lt_succ_self _)) hread
      exact takes_of_skipBlanks hs fun tail _ u hu =>
        readValue_eq_ok_iff.mpr (hu ▸ .arr (hfront tail trivial))
    | obj hread =>
      obtain ⟨front, rfl, hfront⟩ := closed_readEntries (hlocal (Nat.lt_succ_self _)) hread
      exact takes_of_skipBlanks hs fun tail _ u hu =>
        readValue_eq_ok_iff.mpr (hu ▸ .obj (hfront tail trivial))

theorem local_readValue : Local (readValue depth) :=
  fun _ _ _ h => (takes_readValue h).mono fun _ htail _ => htail

/-- A document is one value with blanks around it. Names that are repeated in it
    are settled last. -/
theorem parse_eq_ok_iff {text : String} :
    parse text = .ok value ↔
      ∃ first rest, readFirst text = .ok (first, rest) ∧ skipBlanks rest = [] ∧ first.lastWins = value := by
  constructor
  · intro h
    obtain ⟨⟨first, rest⟩, hfirst, h⟩ := bind_eq_ok_iff.mp h
    simp only at h
    split at h
    next hrest =>
      cases h
      exact ⟨first, rest, hfirst, hrest, rfl⟩
    next => cases h
  · rintro ⟨first, rest, hfirst, hrest, rfl⟩
    refine bind_eq_ok_iff.mpr ⟨_, hfirst, ?_⟩
    simp only [hrest]

end Values

end Json

end SchemaTypes
