import SchemaTypes.Json.Printer
import SchemaTypes.Proofs.Json.Basic
import SchemaTypes.Proofs.Number.Text

namespace SchemaTypes

namespace Json

theorem skipBlanks_cons {c : Char} (h : isBlank c = false) (s : List Char) :
    skipBlanks (c :: s) = c :: s := by
  rw [skipBlanks, List.dropWhile_cons_of_neg (by simp [h])]

section Quoted

theorem hexValue?_digitChar : ∀ n < 16, hexValue? (Nat.digitChar n) = some n := by decide

/-- The four digits with which a control character is written give its code back. -/
theorem readHex_control {n : Nat} (hn : n < 0x20) (rest : List Char) :
    readHex ('0' :: '0' :: Nat.digitChar (n / 16) :: Nat.digitChar (n % 16) :: rest) =
      .ok (n, rest) := by
  have hzero : hexValue? '0' = some 0 := by decide
  have hhigh := hexValue?_digitChar (n / 16) (by omega)
  have hlow := hexValue?_digitChar (n % 16) (by omega)
  have hunit : n / 16 * 16 + n % 16 = n := by omega
  simp [readHex, hzero, hhigh, hlow, hunit]

theorem readEscape_control {c : Char} (hc : c.toNat < 0x20) (rest : List Char) :
    readEscape ('u' :: '0' :: '0' :: Nat.digitChar (c.toNat / 16) :: Nat.digitChar (c.toNat % 16) ::
      rest) = .ok (c, rest) := by
  have htrailing : isTrailing c.toNat = false := by
    simp only [isTrailing, Bool.and_eq_false_iff, decide_eq_false_iff_not]
    omega
  have hleading : isLeading c.toNat = false := by
    simp only [isLeading, Bool.and_eq_false_iff, decide_eq_false_iff_not]
    omega
  simp [readEscape, readUnicode, readHex_control hc, htrailing, hleading, bind, Except.bind]

/-- A character is written as it is or as an escape that reads back. There are no
    other ways, and which one is taken depends on the character alone. -/
theorem escapedChar_cases (c : Char) :
    (escapedChar c = [c] ∧ c ≠ '"' ∧ c ≠ '\\' ∧ ¬ c.toNat < 0x20) ∨
      ∃ code, escapedChar c = '\\' :: code ∧ ∀ rest, readEscape (code ++ rest) = .ok (c, rest) := by
  unfold escapedChar
  split
  case h_8 c hquote hbackslash _ _ _ _ _ =>
    split
    next hcontrol => exact .inr ⟨_, rfl, readEscape_control hcontrol⟩
    next hplain => exact .inl ⟨rfl, hquote, hbackslash, hplain⟩
  all_goals exact .inr ⟨_, rfl, fun _ => rfl⟩

/-- Reading a quoted text gives the characters that were written. -/
theorem readQuoted_escaped (cs rest : List Char) :
    readQuoted (cs.flatMap escapedChar ++ '"' :: rest) = .ok (cs, rest) := by
  induction cs with
  | nil => simp [readQuoted]
  | cons c cs ih =>
    rw [List.flatMap_cons, List.append_assoc]
    obtain ⟨heq, hquote, hbackslash, hplain⟩ | ⟨code, heq, hread⟩ := escapedChar_cases c
    · rw [heq, List.singleton_append, readQuoted]
      · simp [hplain, ih]
      · exact hquote
      · exact hbackslash
    · rw [heq, List.cons_append, readQuoted]
      split
      next e hfail => simp [hread] at hfail
      next c' rest' hok =>
        rw [hread, Except.ok.injEq, Prod.mk.injEq] at hok
        obtain ⟨rfl, rfl⟩ := hok
        simp [ih]

/-- A quoted text is determined by what is written, whatever follows it, since it
    can be read back. -/
theorem quotedChars_append_inj {s t : String} {rest rest' : List Char}
    (h : quotedChars s ++ rest = quotedChars t ++ rest') : s = t ∧ rest = rest' := by
  simp only [quotedChars, List.cons_append, List.append_assoc,
    List.cons.injEq, true_and] at h
  have hread := congrArg readQuoted h
  simp only [List.nil_append, readQuoted_escaped, Except.ok.injEq, Prod.mk.injEq] at hread
  exact ⟨String.toList_inj.mp hread.1, hread.2⟩

end Quoted

section Joined

/-- What may follow a value inside a text: nothing, a comma, or a closing bracket. -/
def EndsValue (rest : List Char) : Prop := ∀ c ∈ rest.head?, c = ',' ∨ c = ']' ∨ c = '\x7d'

theorem EndsValue.endsNumber {rest : List Char} (h : EndsValue rest) : EndsNumber rest := by
  intro c hc
  obtain rfl | rfl | rfl := h c hc <;> decide

theorem joinChars_cons (part : List Char) (parts : List (List Char)) (rest : List Char) :
    joinChars [','] (part :: parts) ++ rest =
      part ++ if parts = [] then rest else ',' :: (joinChars [','] parts ++ rest) := by
  cases parts with
  | nil => simp [joinChars]
  | cons next parts => simp [joinChars]

variable {α : Type} {f : α → List Char} {closing : Char}

/-- A list of parts is determined by its text up to the closing bracket, if each
    part is determined by its own text up to the next comma or bracket. No part
    starts with the bracket, so that an empty list is told apart as well. -/
theorem joinChars_append_inj (hclosing : closing = ']' ∨ closing = '\x7d')
    (hhead : ∀ x, ∃ c cs, f x = c :: cs ∧ c ≠ closing) {xs ys : List α}
    (hinj : ∀ x ∈ xs, ∀ y rest rest', EndsValue rest → EndsValue rest' →
      f x ++ rest = f y ++ rest' → x = y ∧ rest = rest')
    {rest rest' : List Char}
    (h : joinChars [','] (xs.map f) ++ closing :: rest =
      joinChars [','] (ys.map f) ++ closing :: rest') : xs = ys ∧ rest = rest' := by
  have hends (zs : List α) (rest : List Char) : EndsValue
      (if zs.map f = [] then closing :: rest
        else ',' :: (joinChars [','] (zs.map f) ++ closing :: rest)) := by
    intro c hc
    split at hc
    · rw [← Option.some.inj hc]
      exact .inr hclosing
    · exact .inl (Option.some.inj hc).symm
  induction xs generalizing ys with
  | nil =>
    cases ys with
    | nil => simpa [joinChars] using h
    | cons y ys =>
      obtain ⟨c, cs, heq, hne⟩ := hhead y
      rw [List.map_cons, joinChars_cons, heq] at h
      exact absurd (List.cons.inj h).1.symm hne
  | cons x xs ih =>
    cases ys with
    | nil =>
      obtain ⟨c, cs, heq, hne⟩ := hhead x
      rw [List.map_cons, joinChars_cons, heq] at h
      exact absurd (List.cons.inj h).1 hne
    | cons y ys =>
      simp only [List.map_cons, joinChars_cons] at h
      obtain ⟨rfl, htail⟩ := hinj x (by simp) y _ _ (hends xs rest) (hends ys rest') h
      -- The texts go on with a comma or the closing bracket, so both lists end here or none does.
      cases xs with
      | nil =>
        cases ys with
        | nil => simpa using htail
        | cons z zs =>
          simp only [List.map_nil, List.map_cons, if_true, List.cons_ne_nil, if_false,
            List.cons.injEq] at htail
          obtain rfl | rfl := hclosing <;> simp at htail
      | cons w ws =>
        cases ys with
        | nil =>
          simp only [List.map_nil, List.map_cons, if_true, List.cons_ne_nil, if_false,
            List.cons.injEq] at htail
          obtain rfl | rfl := hclosing <;> simp at htail
        | cons z zs =>
          rw [if_neg (by simp), if_neg (by simp), List.cons.injEq] at htail
          obtain ⟨heq, hrest⟩ := ih (fun x hx => hinj x (by simp [hx])) htail.2
          exact ⟨congrArg _ heq, hrest⟩

end Joined

section Values

theorem itemChars_eq_map (items : List Json) : itemChars items = items.map chars := by
  induction items with
  | nil => rfl
  | cons x xs ih => rw [itemChars, ih, List.map_cons]

theorem entryChars_eq_map (entries : List (String × Json)) :
    entryChars entries = entries.map fun entry => quotedChars entry.1 ++ ':' :: entry.2.chars := by
  induction entries with
  | nil => rfl
  | cons entry entries ih => rw [entryChars, ih, List.map_cons]

/-- The kind of the values whose text starts with a character. -/
def kindOfHead (c : Char) : Kind :=
  match c with
  | 'n' => .null
  | 't' | 'f' => .boolean
  | '"' => .string
  | '[' => .array
  | '\x7b' => .object
  | _ => .number

/-- The first character of a text shows the kind of its value. -/
theorem head_chars (value : Json) :
    ∃ c cs, value.chars = c :: cs ∧ kindOfHead c = value.kind ∧ c ≠ ']' := by
  cases value with
  | null => exact ⟨_, _, rfl, rfl, by decide⟩
  | bool b => cases b <;> exact ⟨_, _, rfl, rfl, by decide⟩
  | num n =>
    obtain ⟨c, cs, heq, hc⟩ := n.head_chars
    refine ⟨c, cs, by rw [chars, heq], ?_, ?_⟩
    · unfold kindOfHead
      split <;> simp_all [kind]
    · rintro rfl
      simp_all
  | str s => exact ⟨_, _, rfl, rfl, by decide⟩
  | arr items => exact ⟨'[', _, by rw [chars]; rfl, rfl, by decide⟩
  | obj entries => exact ⟨'\x7b', _, by rw [chars]; rfl, rfl, by decide⟩

/-- Values with a common text are of one kind, whatever follows on either side. -/
theorem kind_eq_of_chars_append {v w : Json} {rest rest' : List Char}
    (h : v.chars ++ rest = w.chars ++ rest') : v.kind = w.kind := by
  obtain ⟨c, cs, hv, hkind, -⟩ := v.head_chars
  obtain ⟨d, ds, hw, hkind', -⟩ := w.head_chars
  rw [hv, hw, List.cons_append, List.cons_append, List.cons.injEq] at h
  rw [← hkind, ← hkind', h.1]

/-- A value is determined by its text up to the next comma or bracket. The
    induction is on one of the two values, and the other is of the same kind by
    its first character. -/
theorem chars_append_inj {v w : Json} {rest rest' : List Char} (hrest : EndsValue rest)
    (hrest' : EndsValue rest') (h : v.chars ++ rest = w.chars ++ rest') :
    v = w ∧ rest = rest' := by
  have hkind := kind_eq_of_chars_append h
  induction v generalizing w rest rest' with
  | null =>
    cases w <;> simp only [kind, reduceCtorEq] at hkind
    exact ⟨rfl, List.append_cancel_left h⟩
  | bool b =>
    cases w <;> simp only [kind, reduceCtorEq] at hkind
    rename_i b'
    cases b <;> cases b' <;> simp_all [chars]
  | num n =>
    cases w <;> simp only [kind, reduceCtorEq] at hkind
    rw [chars, chars] at h
    obtain ⟨rfl, hrest⟩ := Number.chars_append_inj hrest.endsNumber hrest'.endsNumber h
    exact ⟨rfl, hrest⟩
  | str s =>
    cases w <;> simp only [kind, reduceCtorEq] at hkind
    rw [chars, chars] at h
    obtain ⟨rfl, hrest⟩ := quotedChars_append_inj h
    exact ⟨rfl, hrest⟩
  | arr items ih =>
    cases w <;> simp only [kind, reduceCtorEq] at hkind
    simp only [chars, itemChars_eq_map, List.cons_append, List.append_assoc, List.nil_append,
      List.cons.injEq, true_and] at h
    have hhead (x : Json) : ∃ c cs, x.chars = c :: cs ∧ c ≠ ']' := by
      obtain ⟨c, cs, heq, -, hne⟩ := x.head_chars
      exact ⟨c, cs, heq, hne⟩
    obtain ⟨rfl, hrest⟩ := joinChars_append_inj (.inl rfl) hhead
      (fun x hx y rest rest' hr hr' h => ih x hx hr hr' h (kind_eq_of_chars_append h)) h
    exact ⟨rfl, hrest⟩
  | obj entries ih =>
    cases w <;> simp only [kind, reduceCtorEq] at hkind
    simp only [chars, entryChars_eq_map, List.cons_append, List.append_assoc, List.nil_append,
      List.cons.injEq, true_and] at h
    obtain ⟨rfl, hrest⟩ := joinChars_append_inj (.inr rfl)
      (fun entry => ⟨_, _, by simp only [quotedChars, List.cons_append]; rfl, by decide⟩)
      (fun entry hentry entry' rest rest' hr hr' h => by
        simp only [List.append_assoc, List.cons_append] at h
        obtain ⟨hname, htail⟩ := quotedChars_append_inj h
        rw [List.cons.injEq] at htail
        obtain ⟨hvalue, hrest⟩ :=
          ih entry hentry hr hr' htail.2 (kind_eq_of_chars_append htail.2)
        exact ⟨Prod.ext hname hvalue, hrest⟩) h
    exact ⟨rfl, hrest⟩

/-- Different values have different texts, which makes the texts fit for the keys
    of a cache. -/
theorem chars_inj {v w : Json} (h : v.chars = w.chars) : v = w := by
  have hends : EndsValue [] := by simp [EndsValue]
  exact (chars_append_inj hends hends (congrArg (· ++ []) h)).1

theorem compact_inj {v w : Json} (h : v.compact = w.compact) : v = w :=
  chars_inj (String.ofList_inj.mp h)

end Values

end Json

end SchemaTypes
