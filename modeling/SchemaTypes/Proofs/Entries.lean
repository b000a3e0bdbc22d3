import SchemaTypes.Ty.Meet

namespace SchemaTypes

/-- A computation of two steps succeeds if both do. Readers are taken apart by
    this, step by step. -/
theorem bind_eq_ok_iff {ε α β : Type} {x : Except ε α} {f : α → Except ε β} {b : β} :
    x >>= f = .ok b ↔ ∃ a, x = .ok a ∧ f a = .ok b := by
  cases x <;> simp [bind, Except.bind]

/-- Among values of which one has a property there is a first one: none of those
    in front of it has the property. -/
theorem exists_first {α : Type} {p : α → Prop} {items : List α} (h : ∃ x ∈ items, p x) :
    ∃ front first back, items = front ++ first :: back ∧ (∀ x ∈ front, ¬ p x) ∧ p first := by
  classical
  obtain ⟨x, hx, hp⟩ := h
  have hfound : (items.find? (p ·)).isSome := List.find?_isSome.mpr ⟨x, hx, decide_eq_true hp⟩
  obtain ⟨first, hfirst⟩ := Option.isSome_iff_exists.mp hfound
  obtain ⟨hfirst, front, back, hitems, hfront⟩ := List.find?_eq_some_iff_append.mp hfirst
  exact ⟨front, first, back, hitems, fun y hy => by simpa using hfront y hy,
    of_decide_eq_true hfirst⟩

/-- Counting argument behind every comparison that looks from one side only. If
    each of `as` has a partner among the no more numerous `bs`, and no two of `as`
    share one, then each of `bs` is the partner of one of `as`. -/
theorem exists_partner_of_cover {α β : Type} {R : α → β → Prop} {as : List α} {bs : List β}
    (hlength : bs.length ≤ as.length) (hcover : ∀ a ∈ as, ∃ b ∈ bs, R a b)
    (hapart : as.Pairwise fun a a' => ∀ b ∈ bs, R a b → ¬ R a' b) :
    ∀ b ∈ bs, ∃ a ∈ as, R a b := by
  induction as generalizing bs with
  | nil =>
    intro b hb
    rw [List.eq_nil_of_length_eq_zero (Nat.le_zero.mp hlength)] at hb
    cases hb
  | cons a as ih =>
    obtain ⟨b₀, hb₀, hab₀⟩ := hcover a List.mem_cons_self
    obtain ⟨front, back, rfl⟩ := List.append_of_mem hb₀
    obtain ⟨happart₀, hapart⟩ := List.pairwise_cons.mp hapart
    -- The partner of `a` is used up, so the others find theirs among the rest.
    have hrest : ∀ b ∈ front ++ back, ∃ a' ∈ as, R a' b := by
      apply ih
      · simp only [List.length_append, List.length_cons] at hlength ⊢
        omega
      · intro a' ha'
        obtain ⟨b, hb, hab⟩ := hcover a' (List.mem_cons_of_mem _ ha')
        have hne : b ≠ b₀ := by
          rintro rfl
          exact happart₀ a' ha' b hb hab₀ hab
        refine ⟨b, ?_, hab⟩
        simpa [hne] using hb
      · refine hapart.imp fun h b hb => h b ?_
        simp only [List.mem_append, List.mem_cons] at hb ⊢
        exact hb.imp_right .inr
    intro b hb
    by_cases hne : b = b₀
    · exact ⟨a, List.mem_cons_self, hne ▸ hab₀⟩
    · obtain ⟨a', ha', hab⟩ := hrest b (by simpa [hne] using hb)
      exact ⟨a', List.mem_cons_of_mem _ ha', hab⟩

/-- If each of `as` has a partner among `bs` and no two of `as` share one, there
    are enough of `bs`. -/
theorem length_le_of_cover {α β : Type} {R : α → β → Prop} {as : List α} {bs : List β}
    (hcover : ∀ a ∈ as, ∃ b ∈ bs, R a b)
    (hapart : as.Pairwise fun a a' => ∀ b ∈ bs, R a b → ¬ R a' b) : as.length ≤ bs.length := by
  cases as with
  | nil => exact Nat.zero_le _
  | cons a as =>
    obtain ⟨hapart₀, hapart⟩ := List.pairwise_cons.mp hapart
    apply Nat.le_of_not_lt
    intro hlong
    have hrest : bs.length ≤ as.length := Nat.le_of_lt_succ hlong
    -- The others use up all of `bs`, so that `a` has to share its partner with one of them.
    have hback := exists_partner_of_cover hrest
      (fun a' ha' => hcover a' (List.mem_cons_of_mem _ ha')) hapart
    obtain ⟨b, hb, hab⟩ := hcover a List.mem_cons_self
    obtain ⟨a', ha', hab'⟩ := hback b hb
    exact hapart₀ a' ha' b hb hab hab'

/-- Two lists of equal length, each without two elements that share a partner,
    cover each other or do not, from whichever side one looks. -/
theorem cover_comm {α β : Type} {R : α → β → Prop} {S : β → α → Prop} {as : List α} {bs : List β}
    (hiff : ∀ a ∈ as, ∀ b ∈ bs, R a b ↔ S b a)
    (has : as.Pairwise fun a a' => ∀ b ∈ bs, R a b → ¬ R a' b)
    (hbs : bs.Pairwise fun b b' => ∀ a ∈ as, S b a → ¬ S b' a) :
    (as.length = bs.length ∧ ∀ a ∈ as, ∃ b ∈ bs, R a b) ↔
      (bs.length = as.length ∧ ∀ b ∈ bs, ∃ a ∈ as, S b a) := by
  constructor
  · rintro ⟨hlength, hcover⟩
    refine ⟨hlength.symm, fun b hb => ?_⟩
    obtain ⟨a, ha, hab⟩ := exists_partner_of_cover (Nat.le_of_eq hlength.symm) hcover has b hb
    exact ⟨a, ha, (hiff a ha b hb).mp hab⟩
  · rintro ⟨hlength, hcover⟩
    refine ⟨hlength.symm, fun a ha => ?_⟩
    obtain ⟨b, hb, hba⟩ := exists_partner_of_cover (Nat.le_of_eq hlength.symm) hcover hbs a ha
    exact ⟨b, hb, (hiff a ha b hb).mpr hba⟩

/-- Leaving repetitions out loses no element. -/
theorem mem_firstOccurrences {α : Type} [BEq α] [LawfulBEq α] {xs : List α} {x : α} :
    x ∈ firstOccurrences xs ↔ x ∈ xs := by
  suffices h : ∀ seen : List α,
      x ∈ xs.foldl (fun seen x => if seen.contains x then seen else seen ++ [x]) seen ↔
        x ∈ seen ∨ x ∈ xs by
    simpa [firstOccurrences] using h []
  induction xs with
  | nil => simp
  | cons y ys ih =>
    intro seen
    rw [List.foldl_cons, ih]
    split
    next hseen =>
      have hy : x = y → x ∈ seen := fun heq => heq ▸ List.contains_iff_mem.mp hseen
      rw [List.mem_cons, ← or_assoc, or_iff_left_of_imp hy]
    next => simp [or_assoc]

namespace Entries

variable {α : Type} {entries : Entries α} {name : String} {value : α}

theorem has_iff : entries.has name = true ↔ name ∈ entries.names := by
  simp [has, names, List.any_eq_true]

/-- A name is not found just if it is the name of no entry, whether names are
    distinct or not. -/
theorem lookup_eq_none_iff : entries.lookup name = none ↔ name ∉ entries.names := by
  rw [List.lookup_eq_none_iff]
  simp only [names, List.mem_map, bne_iff_ne, ne_eq, not_exists, not_and]
  exact ⟨fun h entry hmem heq => h entry hmem heq.symm, fun h entry hmem heq => h entry hmem heq.symm⟩

/-- Where names are distinct, looking a name up finds every entry, whichever place
    it has. Without this only the first entry of a name is ever seen. -/
theorem lookup_eq_some_iff (hdistinct : entries.names.Nodup) :
    entries.lookup name = some value ↔ (name, value) ∈ entries := by
  refine ⟨Entries.mem_of_lookup, fun hmem => ?_⟩
  induction entries with
  | nil => cases hmem
  | cons entry rest ih =>
    obtain ⟨key, x⟩ := entry
    obtain ⟨hkey, hrest⟩ := List.nodup_cons.mp hdistinct
    rw [List.lookup_cons]
    rcases List.mem_cons.mp hmem with heq | hlater
    · cases heq
      simp
    · have hne : (name == key) = false := by
        rw [beq_eq_false_iff_ne]
        rintro rfl
        exact hkey (List.mem_map.mpr ⟨_, hlater, rfl⟩)
      rw [hne]
      exact ih hrest hlater

/-- Where names are distinct, the order of entries is not seen by looking them up. -/
theorem lookup_eq_of_perm {others : Entries α} (hperm : entries.Perm others)
    (hdistinct : entries.names.Nodup) : entries.lookup name = others.lookup name := by
  have hothers : others.names.Nodup := (hperm.map _).nodup_iff.mp hdistinct
  apply Option.ext
  intro value
  rw [lookup_eq_some_iff hdistinct, lookup_eq_some_iff hothers, hperm.mem_iff]

/-- A change of values that keeps the names changes what is found and nothing else. -/
theorem lookup_map {β : Type} (f : String × α → β) :
    (entries.map fun entry => (entry.1, f entry)).lookup name =
      (entries.lookup name).map fun value => f (name, value) := by
  induction entries with
  | nil => rfl
  | cons entry rest ih =>
    obtain ⟨key, x⟩ := entry
    rw [List.map_cons, List.lookup_cons, List.lookup_cons, ih]
    cases hkey : name == key with
    | true => simp [eq_of_beq hkey]
    | false => rfl

theorem lookup_map_const (names : List String) (value : α) :
    (names.map fun name => (name, value)).lookup name = if name ∈ names then some value else none := by
  induction names with
  | nil => rfl
  | cons key names ih =>
    rw [List.map_cons, List.lookup_cons, ih]
    cases hkey : name == key with
    | true => simp [eq_of_beq hkey]
    | false => simp [ne_of_beq_false hkey]

/-- Entries that are left out by their names are not found, and all others are
    found as before. -/
theorem lookup_filter {κ : Type} [BEq κ] [LawfulBEq κ] {entries : List (κ × α)} {name : κ}
    (p : κ → Bool) : (entries.filter fun entry => p entry.1).lookup name =
      if p name then entries.lookup name else none := by
  induction entries with
  | nil => simp
  | cons entry rest ih =>
    obtain ⟨key, x⟩ := entry
    rw [List.filter_cons, List.lookup_cons]
    cases hkey : name == key with
    | true =>
      rw [← eq_of_beq hkey]
      cases hp : p name <;> simp [hp, ih]
    | false => cases p key <;> simp [List.lookup_cons, hkey, ih]

theorem names_cons (entry : String × α) (rest : Entries α) :
    names (entry :: rest) = entry.1 :: names rest := rfl

/-- Putting an entry in keeps the names in their order. A new name goes to the
    end, and a known one stays at its place. -/
theorem names_insert (name : String) (value : α) (entries : Entries α) :
    (insert name value entries).names =
      if name ∈ entries.names then entries.names else entries.names ++ [name] := by
  induction entries with
  | nil => rfl
  | cons entry rest ih =>
    obtain ⟨key, old⟩ := entry
    rw [insert]
    split
    next hkey => simp [names_cons, hkey]
    next hkey =>
      have hne : ¬ name = key := fun heq => hkey heq.symm
      simp only [names_cons, List.mem_cons, hne, false_or, ih]
      split <;> rfl

theorem mem_of_mem_insert {entry : String × α} (h : entry ∈ insert name value entries) :
    entry = (name, value) ∨ entry ∈ entries := by
  induction entries with
  | nil => exact .inl (List.mem_singleton.mp h)
  | cons first rest ih =>
    obtain ⟨key, old⟩ := first
    rw [insert] at h
    split at h
    next hkey =>
      subst hkey
      obtain rfl | h := List.mem_cons.mp h
      · exact .inl rfl
      · exact .inr (List.mem_cons_of_mem _ h)
    next =>
      obtain rfl | h := List.mem_cons.mp h
      · exact .inr List.mem_cons_self
      · exact (ih h).imp_right (List.mem_cons_of_mem _)

/-- Putting entries together name by name leaves no name twice and makes no entry
    up. This is why every object that has been read has distinct names. -/
theorem ofList_spec (entries : List (String × α)) :
    (names (ofList entries)).Nodup ∧ ofList entries ⊆ entries := by
  suffices h : ∀ acc : Entries α, acc.names.Nodup →
      (names (entries.foldl (fun acc entry => insert entry.1 entry.2 acc) acc)).Nodup ∧
        ∀ entry ∈ entries.foldl (fun acc entry => insert entry.1 entry.2 acc) acc,
          entry ∈ acc ∨ entry ∈ entries by
    obtain ⟨hnames, hmem⟩ := h [] List.nodup_nil
    exact ⟨hnames, fun entry hentry => (hmem entry hentry).resolve_left List.not_mem_nil⟩
  induction entries with
  | nil => exact fun acc hacc => ⟨hacc, fun _ hentry => .inl hentry⟩
  | cons first rest ih =>
    intro acc hacc
    have hnodup : (insert first.1 first.2 acc).names.Nodup := by
      rw [names_insert]
      split
      · exact hacc
      next hnew =>
        refine List.nodup_append.mpr ⟨hacc, by simp, ?_⟩
        rintro key hkey _ hother rfl
        exact hnew (List.mem_singleton.mp hother ▸ hkey)
    obtain ⟨hnames, hmem⟩ := ih _ hnodup
    refine ⟨hnames, fun entry hentry => ?_⟩
    obtain hold | hlater := hmem entry hentry
    · obtain rfl | hold := mem_of_mem_insert hold
      · exact .inr List.mem_cons_self
      · exact .inl hold
    · exact .inr (List.mem_cons_of_mem _ hlater)

/-- An entry of a new name goes to the end. -/
theorem insert_of_not_mem (hname : name ∉ entries.names) :
    insert name value entries = entries ++ [(name, value)] := by
  induction entries with
  | nil => rfl
  | cons first rest ih =>
    rw [names_cons, List.mem_cons, not_or] at hname
    rw [insert, if_neg (Ne.symm hname.1), ih hname.2, List.cons_append]

/-- Entries of distinct names are put together as they are, in the same order. -/
theorem ofList_eq_self (hdistinct : entries.names.Nodup) : ofList entries = entries := by
  suffices h : ∀ acc : Entries α, (acc ++ entries).names.Nodup →
      entries.foldl (fun acc entry => insert entry.1 entry.2 acc) acc = acc ++ entries from
    h [] hdistinct
  clear hdistinct
  induction entries with
  | nil => simp
  | cons first rest ih =>
    intro acc hacc
    have hnew : first.1 ∉ acc.names := by
      rw [names, List.map_append, List.nodup_append] at hacc
      exact fun hmem => hacc.2.2 _ hmem _ List.mem_cons_self rfl
    rw [List.append_cons] at hacc ⊢
    rw [List.foldl_cons, insert_of_not_mem hnew, ih _ hacc]

/-- Entries of two different places never have the same name. -/
theorem pairwise_ne (hdistinct : entries.names.Nodup) :
    List.Pairwise (fun a b : String × α => a.1 ≠ b.1) entries :=
  List.pairwise_map.mp hdistinct

end Entries

end SchemaTypes
