import SchemaTypes.Derive.OptionsReader
import SchemaTypes.Proofs.Json.Reader

namespace SchemaTypes

theorem OptionsError.ofRead_eq_ok_iff {α : Type} {x : Except ReadError α} {a : α} :
    ofRead x = .ok a ↔ x = .ok a := by
  cases x <;> simp [ofRead]

namespace Options

/-- The depth that a value stands for. -/
def depthOf? : Json → Option (Option Nat)
  | .null => some none
  | .num (.int n) => if n < 0 then none else some (some n.toNat)
  | _ => none

def switchOf? : Json → Option Bool
  | .bool value => some value
  | _ => none

/-- The settings with one more entry. No name may be given twice, and there are two. -/
def Given.add? (given : Given) (entry : String × Json) : Option Given :=
  if entry.1 = "max_depth" then
    if given.maxDepth.isSome then none
    else (depthOf? entry.2).map fun depth => { given with maxDepth := some depth }
  else if entry.1 = "memoize" then
    if given.memoize.isSome then none
    else (switchOf? entry.2).map fun memoize => { given with memoize := some memoize }
  else none

def Given.ofEntries? (entries : List (String × Json)) : Option Given := entries.foldlM add? {}

def Given.ofItems? : List Json → Option Given
  | [] => some {}
  | [depth] => (depthOf? depth).map fun depth => { maxDepth := some depth }
  | [depth, memoize] => do
    let depth ← depthOf? depth
    let memoize ← switchOf? memoize
    return { maxDepth := some depth, memoize := some memoize }
  | _ => none

/-- The settings that a value stands for. -/
def ofJson? : Json → Option Options
  | .arr items => (Given.ofItems? items).map Given.options
  | .obj entries => (Given.ofEntries? entries).map Given.options
  | _ => none

open Json (skipBlanks readNumber readValue readItems readMoreItems readEntries)

variable {s rest : List Char}

/-- A number is read as a limit just if it is read as a value that is a limit. The other
    readers of this module are compared with those of values in the same way. -/
theorem readDepthNumber_eq_ok_iff {negative : Bool} {bound : Option Nat} :
    readDepthNumber negative s = .ok (bound, rest) ↔
      ∃ n, readNumber negative s = .ok (n, rest) ∧ depthOf? (.num n) = some bound := by
  constructor
  · intro h
    obtain ⟨⟨n, _⟩, hread, h⟩ := bind_eq_ok_iff.mp h
    rw [OptionsError.ofRead_eq_ok_iff] at hread
    cases n with
    | int n =>
      simp only at h
      split at h
      next => cases h
      next hn =>
        cases h
        exact ⟨.int n, hread, if_neg hn⟩
    | float x => cases h
  · rintro ⟨n, hread, hbound⟩
    refine bind_eq_ok_iff.mpr ⟨_, OptionsError.ofRead_eq_ok_iff.mpr hread, ?_⟩
    cases n with
    | int n =>
      simp only [depthOf?] at hbound ⊢
      split at hbound
      next => cases hbound
      next hn =>
        cases hbound
        rw [if_neg hn]
    | float x => cases hbound

/-- A limit is a number or `null`. The depth at which it is read does not matter,
    since neither is nested. -/
theorem readDepth_eq_ok_iff (depth : Nat) {bound : Option Nat} :
    readDepth s = .ok (bound, rest) ↔
      ∃ value, readValue depth s = .ok (value, rest) ∧ depthOf? value = some bound := by
  simp only [Json.readValue_eq_ok_iff]
  constructor
  · intro h
    unfold readDepth at h
    split at h
    next => cases h
    next hs =>
      obtain ⟨_, hletters, h⟩ := bind_eq_ok_iff.mp h
      cases h
      rw [OptionsError.ofRead_eq_ok_iff, Json.readLetters_eq_ok_iff] at hletters
      rw [hs, hletters]
      exact ⟨.null, .null, rfl⟩
    next hs =>
      obtain ⟨n, hread, hn⟩ := readDepthNumber_eq_ok_iff.mp h
      exact ⟨.num n, hs ▸ .negative hread, hn⟩
    next hs =>
      split at h
      next hdigit =>
        obtain ⟨n, hread, hn⟩ := readDepthNumber_eq_ok_iff.mp h
        exact ⟨.num n, hs ▸ .number hdigit hread, hn⟩
      next => cases h
  · rintro ⟨value, hvalue, hbound⟩
    unfold readDepth
    generalize skipBlanks s = t at hvalue ⊢
    cases hvalue with
    | null =>
      cases hbound
      exact bind_eq_ok_iff.mpr
        ⟨_, OptionsError.ofRead_eq_ok_iff.mpr (Json.readLetters_eq_ok_iff.mpr rfl), rfl⟩
    | negative hread => exact readDepthNumber_eq_ok_iff.mpr ⟨_, hread, hbound⟩
    | number hdigit hread =>
      split
      case h_1 heq => cases heq
      case h_4 heq =>
        cases heq
        rw [if_pos hdigit]
        exact readDepthNumber_eq_ok_iff.mpr ⟨_, hread, hbound⟩
      all_goals next heq =>
        cases heq
        exact absurd hdigit (by decide)
    | true | false | str | arr | obj => cases hbound

theorem readSwitch_eq_ok_iff (depth : Nat) {switch : Bool} :
    readSwitch s = .ok (switch, rest) ↔
      ∃ value, readValue depth s = .ok (value, rest) ∧ switchOf? value = some switch := by
  simp only [Json.readValue_eq_ok_iff]
  constructor
  · intro h
    unfold readSwitch at h
    split at h
    next => cases h
    next hs =>
      obtain ⟨_, hletters, h⟩ := bind_eq_ok_iff.mp h
      cases h
      rw [OptionsError.ofRead_eq_ok_iff, Json.readLetters_eq_ok_iff] at hletters
      rw [hs, hletters]
      exact ⟨.bool true, .true, rfl⟩
    next hs =>
      obtain ⟨_, hletters, h⟩ := bind_eq_ok_iff.mp h
      cases h
      rw [OptionsError.ofRead_eq_ok_iff, Json.readLetters_eq_ok_iff] at hletters
      rw [hs, hletters]
      exact ⟨.bool false, .false, rfl⟩
    next => cases h
  · rintro ⟨value, hvalue, hswitch⟩
    unfold readSwitch
    generalize skipBlanks s = t at hvalue ⊢
    cases hvalue with
    | true | false =>
      cases hswitch
      exact bind_eq_ok_iff.mpr
        ⟨_, OptionsError.ofRead_eq_ok_iff.mpr (Json.readLetters_eq_ok_iff.mpr rfl), rfl⟩
    | null | negative | number | str | arr | obj => cases hswitch

section Entries

variable {given given' : Given}

/-- An entry is taken if its name is one of the two, was not given before and has a value of
    the right kind. These are all ways in which an entry can be taken. -/
theorem Given.add?_eq_some_iff {name : String} {value : Json} :
    given.add? (name, value) = some given' ↔
      (name = "max_depth" ∧ given.maxDepth = none ∧
        ∃ bound, depthOf? value = some bound ∧ { given with maxDepth := some bound } = given') ∨
      (name = "memoize" ∧ given.memoize = none ∧
        ∃ switch, switchOf? value = some switch ∧ { given with memoize := some switch } = given') := by
  simp only [Given.add?]
  split
  next hname => cases given.maxDepth <;> simp [hname]
  next hname =>
    split
    next hname' => cases given.memoize <;> simp [hname']
    next hname' => simp [hname, hname']

/-- How many names may still be given. -/
def Given.missing (given : Given) : Nat :=
  (if given.maxDepth.isSome then 0 else 1) + (if given.memoize.isSome then 0 else 1)

/-- Every entry that is taken leaves one name less to be given, which bounds the
    number of entries. -/
theorem Given.missing_of_add? {entry : String × Json} (h : given.add? entry = some given') :
    given'.missing + 1 = given.missing := by
  obtain ⟨-, hnone, _, -, rfl⟩ | ⟨-, hnone, _, -, rfl⟩ := Given.add?_eq_some_iff.mp h
  · simp only [missing, hnone]
    simp
    omega
  · simp [missing, hnone]

/-- One entry of the settings, read as an entry of any object and then taken. -/
theorem readEntry_eq_ok_iff (depth : Nat) :
    readEntry given s = .ok (given', rest) ↔
      ∃ entry, Json.readEntry (readValue depth) s = .ok (entry, rest) ∧ given.add? entry = some given' := by
  constructor
  · intro h
    obtain ⟨⟨key, rest₁⟩, hkey, h₁⟩ := bind_eq_ok_iff.mp h
    rw [underStep_eq_ok_iff, OptionsError.ofRead_eq_ok_iff] at hkey
    simp only at h₁
    split at h₁
    next hname =>
      split at h₁
      next => cases h₁
      next hnone =>
        obtain ⟨rest₂, hcolon, h₂⟩ := bind_eq_ok_iff.mp h₁
        obtain ⟨⟨bound, _⟩, hbound, h₃⟩ := bind_eq_ok_iff.mp h₂
        cases h₃
        rw [OptionsError.ofRead_eq_ok_iff, Json.readColon_eq_ok_iff] at hcolon
        rw [underStep_eq_ok_iff, readDepth_eq_ok_iff depth] at hbound
        obtain ⟨value, hvalue, hbound⟩ := hbound
        refine ⟨(String.ofList key, value),
          Json.readEntry_eq_ok_iff.mpr ⟨key, rest₁, rest₂, rfl, hkey, hcolon, hvalue⟩, ?_⟩
        exact Given.add?_eq_some_iff.mpr (.inl ⟨hname, by simpa using hnone, bound, hbound, rfl⟩)
    next hname =>
      split at h₁
      next => cases h₁
      next hnone =>
        obtain ⟨rest₂, hcolon, h₂⟩ := bind_eq_ok_iff.mp h₁
        obtain ⟨⟨switch, _⟩, hswitch, h₃⟩ := bind_eq_ok_iff.mp h₂
        cases h₃
        rw [OptionsError.ofRead_eq_ok_iff, Json.readColon_eq_ok_iff] at hcolon
        rw [underStep_eq_ok_iff, readSwitch_eq_ok_iff depth] at hswitch
        obtain ⟨value, hvalue, hswitch⟩ := hswitch
        refine ⟨(String.ofList key, value),
          Json.readEntry_eq_ok_iff.mpr ⟨key, rest₁, rest₂, rfl, hkey, hcolon, hvalue⟩, ?_⟩
        exact Given.add?_eq_some_iff.mpr (.inr ⟨hname, by simpa using hnone, switch, hswitch, rfl⟩)
    next => cases h₁
  · rintro ⟨⟨name, value⟩, hentry, hadd⟩
    obtain ⟨key, rest₁, rest₂, rfl, hkey, hcolon, hvalue⟩ := Json.readEntry_eq_ok_iff.mp hentry
    refine bind_eq_ok_iff.mpr
      ⟨_, underStep_eq_ok_iff.mpr (OptionsError.ofRead_eq_ok_iff.mpr hkey), ?_⟩
    have hcolon := OptionsError.ofRead_eq_ok_iff.mpr (Json.readColon_eq_ok_iff.mpr hcolon)
    obtain ⟨hname, hnone, bound, hbound, rfl⟩ | ⟨hname, hnone, switch, hswitch, rfl⟩ :=
      Given.add?_eq_some_iff.mp hadd
    · simp only [hname, hnone]
      have hbound := (readDepth_eq_ok_iff depth).mpr ⟨value, hvalue, hbound⟩
      exact bind_eq_ok_iff.mpr ⟨_, hcolon, bind_eq_ok_iff.mpr ⟨_, underStep_eq_ok_iff.mpr hbound, rfl⟩⟩
    · simp only [hname, hnone]
      have hswitch := (readSwitch_eq_ok_iff depth).mpr ⟨value, hvalue, hswitch⟩
      exact bind_eq_ok_iff.mpr ⟨_, hcolon, bind_eq_ok_iff.mpr ⟨_, underStep_eq_ok_iff.mpr hswitch, rfl⟩⟩

/-- With more rounds left than names, the rounds never run out. The reader of
    settings stops at the first entry that it does not take, and the reader of
    objects may stop later or not at all; where the first succeeds the two have
    read the same. -/
theorem readMoreEntries_eq_ok_iff (depth : Nat) {rounds : Nat} (hrounds : given.missing < rounds) :
    readMoreEntries rounds given s = .ok given' ↔
      ∃ rounds' entries rest, Json.readMoreEntries (readValue depth) rounds' s = .ok (entries, rest) ∧
        entries.foldlM Given.add? given = some given' := by
  induction rounds generalizing given s with
  | zero => cases hrounds
  | succ rounds ih =>
    have hleft {entry : String × Json} {next : Given} (h : given.add? entry = some next) :
        next.missing < rounds := by
      have := Given.missing_of_add? h
      omega
    constructor
    · intro h
      rw [readMoreEntries] at h
      split at h
      next => cases h
      next rest hs =>
        cases h
        exact ⟨1, [], rest, Json.readMoreEntries_eq_ok_iff.mpr (.inl ⟨rfl, hs⟩), rfl⟩
      next t hs =>
        split at h
        next => cases h
        next u ht =>
          obtain ⟨⟨next, middle⟩, hentry, h⟩ := bind_eq_ok_iff.mp h
          obtain ⟨entry, hentry, hadd⟩ := (readEntry_eq_ok_iff depth).mp hentry
          obtain ⟨rounds', entries, rest, hmore, hfold⟩ := (ih (hleft hadd)).mp h
          refine ⟨rounds' + 1, entry :: entries, rest, Json.readMoreEntries_eq_ok_iff.mpr
            (.inr ⟨t, u, entry, middle, entries, rfl, hs, ht, hentry, hmore⟩), ?_⟩
          rw [List.foldlM_cons, hadd]
          exact hfold
        next => cases h
        next => cases h
      next => cases h
    · rintro ⟨rounds', entries, rest, hread, hfold⟩
      cases rounds' with
      | zero => cases hread
      | succ rounds' =>
        obtain ⟨rfl, hs⟩ | ⟨t, u, entry, middle, more, rfl, hs, ht, hentry, hmore⟩ :=
          Json.readMoreEntries_eq_ok_iff.mp hread
        · cases hfold
          simp only [readMoreEntries, hs]
        · rw [List.foldlM_cons] at hfold
          obtain ⟨next, hadd, hfold⟩ := Option.bind_eq_some_iff.mp hfold
          simp only [readMoreEntries, hs, ht]
          exact bind_eq_ok_iff.mpr ⟨_, (readEntry_eq_ok_iff depth).mpr ⟨entry, hentry, hadd⟩,
            (ih (hleft hadd)).mpr ⟨rounds', more, rest, hmore, hfold⟩⟩

theorem readObject_eq_ok_iff (depth : Nat) :
    readObject s = .ok given ↔
      ∃ entries rest, readEntries (readValue depth) s = .ok (entries, rest) ∧
        Given.ofEntries? entries = some given := by
  have hleft {entry : String × Json} {next : Given} (h : ({} : Given).add? entry = some next) :
      next.missing < 3 := by
    have hfirst := Given.missing_of_add? h
    have hall : ({} : Given).missing = 2 := rfl
    omega
  constructor
  · intro h
    unfold readObject at h
    split at h
    next => cases h
    next rest hs =>
      cases h
      exact ⟨[], rest, Json.readEntries_eq_ok_iff.mpr (.inl ⟨rfl, hs⟩), rfl⟩
    next u hs =>
      obtain ⟨⟨next, middle⟩, hentry, h⟩ := bind_eq_ok_iff.mp h
      obtain ⟨entry, hentry, hadd⟩ := (readEntry_eq_ok_iff depth).mp hentry
      obtain ⟨rounds, more, rest, hmore, hfold⟩ := (readMoreEntries_eq_ok_iff depth (hleft hadd)).mp h
      have hmore := Json.readMoreEntries_of_length_le Json.local_readValue hmore
        (Nat.le_succ middle.length)
      refine ⟨entry :: more, rest, Json.readEntries_eq_ok_iff.mpr
        (.inr ⟨u, entry, middle, more, rfl, hs, hentry, hmore⟩), ?_⟩
      rw [Given.ofEntries?, List.foldlM_cons, hadd]
      exact hfold
    next => cases h
  · rintro ⟨entries, rest, hread, hfold⟩
    obtain ⟨rfl, hs⟩ | ⟨u, entry, middle, more, rfl, hs, hentry, hmore⟩ :=
      Json.readEntries_eq_ok_iff.mp hread
    · cases hfold
      simp only [readObject, hs]
    · rw [Given.ofEntries?, List.foldlM_cons] at hfold
      obtain ⟨next, hadd, hfold⟩ := Option.bind_eq_some_iff.mp hfold
      simp only [readObject, hs]
      exact bind_eq_ok_iff.mpr ⟨_, (readEntry_eq_ok_iff depth).mpr ⟨entry, hentry, hadd⟩,
        (readMoreEntries_eq_ok_iff depth (hleft hadd)).mpr ⟨_, more, rest, hmore, hfold⟩⟩

end Entries

section Items

variable {given : Given}

theorem readListEnd_eq_ok_iff : readListEnd s = .ok () ↔ ∃ rest, skipBlanks s = ']' :: rest := by
  unfold readListEnd
  split
  next hs => simp [hs]
  next hs => simp [hs]
  next hs =>
    rw [hs]
    split <;> simp
  next hbracket _ =>
    refine ⟨nofun, fun ⟨rest, hs⟩ => ?_⟩
    exact absurd hs (hbracket rest)

/-- Settings may also be given as a list of their values. Whatever is read so is a
    list of at most two values, each of the kind that its place asks for. -/
theorem exists_items_of_readList (depth : Nat) (h : readList s = .ok given) :
    ∃ items rest, readItems (readValue depth) s = .ok (items, rest) ∧
      Given.ofItems? items = some given := by
  unfold readList at h
  split at h
  next => cases h
  next rest hs =>
    cases h
    exact ⟨[], rest, Json.readItems_eq_ok_iff.mpr (.inl ⟨rfl, hs⟩), rfl⟩
  next hnil hbracket =>
    obtain ⟨⟨bound, middle⟩, hbound, h⟩ := bind_eq_ok_iff.mp h
    obtain ⟨c, u, hs⟩ := List.exists_cons_of_ne_nil hnil
    have hc : c ≠ ']' := by
      rintro rfl
      exact hbracket u hs
    rw [underStep_eq_ok_iff, hs, readDepth_eq_ok_iff depth] at hbound
    obtain ⟨first, hfirst, hbound⟩ := hbound
    have hitems {more : List Json} {rounds : Nat} {rest : List Char}
        (hmore : readMoreItems (readValue depth) rounds 1 middle = .ok (more, rest)) :
        readItems (readValue depth) s = .ok (first :: more, rest) :=
      Json.readItems_eq_ok_iff.mpr (.inr ⟨c, u, first, middle, more, rfl, hs, hc, hfirst,
        Json.readMoreItems_of_length_le Json.local_readValue hmore (Nat.le_succ _)⟩)
    simp only at h
    split at h
    next => cases h
    next rest hmiddle =>
      cases h
      have hmore : readMoreItems (readValue depth) 1 1 middle = .ok ([], rest) :=
        Json.readMoreItems_eq_ok_iff.mpr (.inl ⟨rfl, hmiddle⟩)
      exact ⟨[first], rest, hitems hmore, by rw [Given.ofItems?, hbound, Option.map_some]⟩
    next t hmiddle =>
      split at h
      next => cases h
      next => cases h
      next hnil' hbracket' =>
        obtain ⟨⟨switch, last⟩, hswitch, h⟩ := bind_eq_ok_iff.mp h
        obtain ⟨_, hend, h⟩ := bind_eq_ok_iff.mp h
        cases h
        obtain ⟨c', u', ht⟩ := List.exists_cons_of_ne_nil hnil'
        have hc' : c' ≠ ']' := by
          rintro rfl
          exact hbracket' u' ht
        rw [underStep_eq_ok_iff, ht, readSwitch_eq_ok_iff depth] at hswitch
        obtain ⟨second, hsecond, hswitch⟩ := hswitch
        rw [OptionsError.ofRead_eq_ok_iff, readListEnd_eq_ok_iff] at hend
        obtain ⟨rest, hlast⟩ := hend
        have hmore : readMoreItems (readValue depth) 2 1 middle = .ok ([second], rest) :=
          Json.readMoreItems_eq_ok_iff.mpr (.inr ⟨t, c', u', second, last, [], rfl, hmiddle, ht, hc',
            hsecond, Json.readMoreItems_eq_ok_iff.mpr (.inl ⟨rfl, hlast⟩)⟩)
        refine ⟨[first, second], rest, hitems hmore, ?_⟩
        rw [Given.ofItems?, hbound, hswitch]
        rfl
    next => cases h

theorem Given.exists_depthOf? {first : Json} {more : List Json}
    (h : Given.ofItems? (first :: more) = some given) : ∃ bound, depthOf? first = some bound := by
  match more with
  | [] =>
    obtain ⟨bound, hbound, -⟩ := Option.map_eq_some_iff.mp h
    exact ⟨bound, hbound⟩
  | [_] =>
    obtain ⟨bound, hbound, -⟩ := Option.bind_eq_some_iff.mp h
    exact ⟨bound, hbound⟩
  | _ :: _ :: _ => cases h

/-- Conversely a list whose items are settings is read as such, whether all of its
    items are there or the last ones are left out. -/
theorem readList_of_items {depth : Nat} {items : List Json}
    (hread : readItems (readValue depth) s = .ok (items, rest))
    (hgiven : Given.ofItems? items = some given) : readList s = .ok given := by
  obtain ⟨rfl, hs⟩ | ⟨c, u, first, middle, more, rfl, hs, hc, hfirst, hmore⟩ :=
    Json.readItems_eq_ok_iff.mp hread
  · cases hgiven
    simp only [readList, hs]
  · obtain ⟨bound, hbound⟩ := Given.exists_depthOf? hgiven
    have hdepth := (readDepth_eq_ok_iff depth).mpr ⟨first, hfirst, hbound⟩
    simp only [readList, hs]
    split
    next heq => cases heq
    next heq =>
      cases heq
      exact absurd rfl hc
    next =>
      refine bind_eq_ok_iff.mpr ⟨_, underStep_eq_ok_iff.mpr hdepth, ?_⟩
      generalize middle.length = rounds at hmore
      obtain ⟨rfl, hmiddle⟩ | ⟨t, c', u', second, last, more, rfl, hmiddle, ht, hc', hsecond, hmore⟩ :=
        Json.readMoreItems_eq_ok_iff.mp hmore
      · rw [Given.ofItems?, hbound] at hgiven
        cases hgiven
        simp only [hmiddle]
      · cases rounds with
        | zero => cases hmore
        | succ rounds =>
          obtain ⟨rfl, hlast⟩ | ⟨_, _, _, _, _, _, rfl, -⟩ := Json.readMoreItems_eq_ok_iff.mp hmore
          · rw [Given.ofItems?, hbound, Option.bind_eq_bind, Option.bind_some] at hgiven
            obtain ⟨switch, hswitch, hgiven⟩ := Option.bind_eq_some_iff.mp hgiven
            cases hgiven
            have hsecond := (readSwitch_eq_ok_iff depth).mpr ⟨second, hsecond, hswitch⟩
            simp only [hmiddle, ht]
            split
            next heq => cases heq
            next heq =>
              cases heq
              exact absurd rfl hc'
            next =>
              refine bind_eq_ok_iff.mpr ⟨_, underStep_eq_ok_iff.mpr hsecond, bind_eq_ok_iff.mpr
                ⟨(), OptionsError.ofRead_eq_ok_iff.mpr (readListEnd_eq_ok_iff.mpr ⟨rest, hlast⟩), rfl⟩⟩
          · cases hgiven

theorem readList_eq_ok_iff (depth : Nat) :
    readList s = .ok given ↔
      ∃ items rest, readItems (readValue depth) s = .ok (items, rest) ∧
        Given.ofItems? items = some given :=
  ⟨exists_items_of_readList depth, fun ⟨_, _, hread, hgiven⟩ => readList_of_items hread hgiven⟩

end Items

/-- Settings are the decoding of the first value in a text. What follows this value is not
    looked at, which is a difference from reading the text as a document. -/
theorem parse_eq_ok_iff {text : String} {options : Options} :
    parse text = .ok options ↔
      ∃ value rest, Json.readFirst text = .ok (value, rest) ∧ ofJson? value = some options := by
  simp only [Json.readFirst, Json.readValue_eq_ok_iff]
  constructor
  · intro h
    unfold parse at h
    split at h
    next => cases h
    next hs =>
      obtain ⟨given, hgiven, h⟩ := bind_eq_ok_iff.mp h
      cases h
      obtain ⟨items, rest, hread, hitems⟩ := (readList_eq_ok_iff 126).mp hgiven
      exact ⟨.arr items, rest, hs ▸ .arr hread, by rw [ofJson?, hitems, Option.map_some]⟩
    next hs =>
      obtain ⟨given, hgiven, h⟩ := bind_eq_ok_iff.mp h
      cases h
      obtain ⟨entries, rest, hread, hentries⟩ := (readObject_eq_ok_iff 126).mp hgiven
      exact ⟨.obj entries, rest, hs ▸ .obj hread, by rw [ofJson?, hentries, Option.map_some]⟩
    next => cases h
  · rintro ⟨value, rest, hvalue, hoptions⟩
    unfold parse
    generalize skipBlanks text.toList = t at hvalue ⊢
    generalize Json.maxNesting = depth at hvalue
    cases hvalue with
    | arr hread =>
      obtain ⟨given, hitems, rfl⟩ := Option.map_eq_some_iff.mp hoptions
      exact bind_eq_ok_iff.mpr ⟨given, (readList_eq_ok_iff _).mpr ⟨_, rest, hread, hitems⟩, rfl⟩
    | obj hread =>
      obtain ⟨given, hentries, rfl⟩ := Option.map_eq_some_iff.mp hoptions
      exact bind_eq_ok_iff.mpr ⟨given, (readObject_eq_ok_iff _).mpr ⟨_, rest, hread, hentries⟩, rfl⟩
    | null | true | false | negative | number | str => cases hoptions

end Options

end SchemaTypes
