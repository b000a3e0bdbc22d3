import SchemaTypes.Fixture.Basic
import SchemaTypes.Proofs.Derive.OptionsReader

namespace SchemaTypes

/-- What is read from `text` is read from a value at its front, whatever follows that value.
    The text is a value as a whole exactly if nothing but blanks follow. -/
def ReadFromFirstValue {ε α : Type} (read : String → Except ε α) (text : String) (a : α) : Prop :=
  ∃ front rest, text.toList = front ++ rest ∧ (∃ value, Json.parse (String.ofList front) = .ok value) ∧
    (∀ tail, read (String.ofList (front ++ tail)) = .ok a) ∧
    ((∃ value, Json.parse text = .ok value) ↔ Json.skipBlanks rest = [])

/-- A reader is of this kind if it decodes the first value, and decodes no number.
    Behind a number the next characters could go on with it. -/
theorem readFromFirstValue_of_decodes {ε α : Type} {read : String → Except ε α}
    {decode : Json → Option α} {text : String} {a : α}
    (hdecodes : ∀ text, read text = .ok a ↔
      ∃ value rest, Json.readFirst text = .ok (value, rest) ∧ decode value = some a)
    (hkind : ∀ value, decode value = some a → value.kind ≠ .number) (h : read text = .ok a) :
    ReadFromFirstValue read text a := by
  obtain ⟨value, rest, hfirst, hvalue⟩ := (hdecodes text).mp h
  obtain ⟨front, htext, hfront⟩ := Json.takes_readValue hfirst
  have hread (tail : List Char) :
      Json.readFirst (String.ofList (front ++ tail)) = .ok (value, tail) := by
    rw [Json.readFirst, String.toList_ofList]
    exact hfront tail fun hnumber => absurd hnumber (hkind value hvalue)
  refine ⟨front, rest, htext, ⟨value.lastWins, ?_⟩, fun tail => ?_, ?_⟩
  · refine Json.parse_eq_ok_iff.mpr ⟨value, [], ?_, rfl, rfl⟩
    simpa using hread []
  · exact (hdecodes _).mpr ⟨value, tail, hread tail, hvalue⟩
  · constructor
    · rintro ⟨_, hparse⟩
      obtain ⟨_, _, hfirst', hrest, -⟩ := Json.parse_eq_ok_iff.mp hparse
      cases hfirst.symm.trans hfirst'
      exact hrest
    · intro hrest
      exact ⟨value.lastWins, Json.parse_eq_ok_iff.mpr ⟨value, rest, hfirst, hrest, rfl⟩⟩

/-- Settings are an object or a list. -/
theorem Options.kind_ne_number_of_ofJson? {value : Json} {options : Options}
    (h : ofJson? value = some options) : value.kind ≠ .number := by
  cases value with
  | num => cases h
  | _ => exact nofun

/-- Fixtures are the decoding of the first value in a text, as settings are. -/
theorem Fixture.parse_eq_ok_iff {text : String} {fixtures : List Fixture} :
    Fixture.parse text = .ok fixtures ↔
      ∃ value rest, Json.readFirst text = .ok (value, rest) ∧ listOfJson? value = some fixtures := by
  unfold Fixture.parse
  cases Json.readFirst text with
  | error e => simp
  | ok read =>
    obtain ⟨value, rest⟩ := read
    cases hvalue : listOfJson? value <;> simp [hvalue]

theorem Fixture.kind_ne_number_of_listOfJson? {value : Json} {fixtures : List Fixture}
    (h : listOfJson? value = some fixtures) : value.kind ≠ .number := by
  cases value with
  | num => cases h
  | _ => exact nofun

/-- Neither settings nor fixtures have to be all of their text. If reading
    succeeds, there is a first value from which everything was read, and any text
    that starts with this value gives the same. -/
theorem parse_reads_first_value (text : String) :
    (∀ options, Options.parse text = .ok options →
      ReadFromFirstValue Options.parse text options) ∧
    (∀ fixtures, Fixture.parse text = .ok fixtures →
      ReadFromFirstValue Fixture.parse text fixtures) := by
  constructor
  · intro options h
    exact readFromFirstValue_of_decodes (fun _ => Options.parse_eq_ok_iff)
      (fun _ => Options.kind_ne_number_of_ofJson?) h
  · intro fixtures h
    exact readFromFirstValue_of_decodes (fun _ => Fixture.parse_eq_ok_iff)
      (fun _ => Fixture.kind_ne_number_of_listOfJson?) h

theorem eq_ok_of_toOption {ε α : Type} {x : Except ε α} {a : α} (h : x.toOption = some a) : x = .ok a := by
  cases x with
  | error e => cases h
  | ok b => exact congrArg _ (Option.some.inj h)

/-- Two objects of settings, of which the first is taken, and an empty list of
    fixtures with the start of another one behind it. -/
theorem parse_reads_first_value_of_two :
    let settings := "\x7b\"max_depth\": 1\x7d\n\x7b\"max_depth\": 2\x7d"
    let fixtures := "[] ["
    ReadFromFirstValue Options.parse settings { maxDepth := some 1 } ∧
      ReadFromFirstValue Fixture.parse fixtures [] := by
  intro settings fixtures
  have hsettings : (Options.parse settings).toOption = some { maxDepth := some 1 } := by decide +kernel
  have hfixtures : ((Fixture.parse fixtures).toOption.map List.length) = some 0 := by decide +kernel
  obtain ⟨read, hread, hlength⟩ := Option.map_eq_some_iff.mp hfixtures
  cases List.eq_nil_of_length_eq_zero hlength
  exact ⟨(parse_reads_first_value settings).1 _ (eq_ok_of_toOption hsettings),
    (parse_reads_first_value fixtures).2 _ (eq_ok_of_toOption hread)⟩

/-- The second of two objects is lost, although the two are no value and a
    document that holds them is refused. -/
theorem parse_loses_second_object :
    let settings := "\x7b\"max_depth\": 1\x7d\n\x7b\"max_depth\": 2\x7d"
    let fixture := "\x7b\"name\": \"any\", \"schema\": true, \"typescript\": \"unknown\"\x7d"
    (Options.parse settings).toOption = some { maxDepth := some 1 } ∧
      (Json.parse settings).toBool = false ∧
      (Fixture.parse (fixture ++ fixture)).toOption.map List.length = some 1 ∧
      (Json.parse (fixture ++ fixture)).toBool = false := by
  decide +kernel

end SchemaTypes
