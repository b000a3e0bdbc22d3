import Mathlib.Data.List.Basic
import SchemaTypes.Files.Tree
import SchemaTypes.Proofs.Entries

namespace SchemaTypes

/-- What is written as text is read back as the same text. -/
theorem decodeText_toUTF8 (text : String) : decodeText text.toUTF8 = .ok text := by
  have hdecode : String.fromUTF8? text.toUTF8 = some text := by
    simp only [String.fromUTF8?, String.toUTF8_eq_toByteArray, dif_pos text.isValidUTF8]
    rfl
  rw [decodeText, hdecode]

namespace FileTree

variable {tree tree' : FileTree} {place other : Place} {node : Node}

theorem isDirectoryAt_iff : tree.isDirectoryAt place = true ↔ tree.get? place = some .directory := by
  unfold isDirectoryAt
  split
  next h => simp [h]
  next h => simpa using h

/-- Putting a node at a place changes that place and no other. The root is always
    a directory, so nothing is ever put there. -/
theorem get?_put (hplace : place ≠ []) :
    (tree.put place node).get? other = if other = place then some node else tree.get? other := by
  unfold get? put
  by_cases hroot : other = []
  · rw [if_pos hroot, if_neg (hroot ▸ hplace.symm), if_pos hroot]
  · rw [if_neg hroot, if_neg hroot, List.lookup_cons]
    by_cases heq : other = place
    · rw [if_pos heq, beq_iff_eq.mpr heq]
    · have hfilter : (tree.nodes.filter fun entry => entry.1 != place).lookup other = _ :=
        Entries.lookup_filter (· != place)
      rw [if_pos (bne_iff_ne.mpr heq)] at hfilter
      rw [if_neg heq, beq_eq_false_iff_ne.mpr heq]
      exact hfilter

/-- The second tree has everything that the first one has, and what it has besides
    are directories. -/
structure Extends (tree tree' : FileTree) : Prop where
  here : tree'.here = tree.here
  get? : ∀ place, tree'.get? place = tree.get? place ∨
    tree.get? place = none ∧ tree'.get? place = some .directory

theorem Extends.refl (tree : FileTree) : tree.Extends tree := ⟨rfl, fun _ => .inl rfl⟩

/-- What was made in a first step stays through a second one, and both have made
    directories only. -/
theorem Extends.trans {tree'' : FileTree} (h : tree.Extends tree') (h' : tree'.Extends tree'') :
    tree.Extends tree'' := by
  refine ⟨h'.here.trans h.here, fun place => ?_⟩
  obtain hsame | ⟨hnone, hmade⟩ := h.get? place
  · rw [← hsame]
    exact h'.get? place
  · obtain hsame' | ⟨hnone', _⟩ := h'.get? place
    · exact .inr ⟨hnone, hsame'.trans hmade⟩
    · rw [hmade] at hnone'
      cases hnone'

/-- A directory that is put where nothing was leaves everything else as it is. -/
theorem extends_put (hplace : place ≠ []) (hnone : tree.get? place = none) :
    tree.Extends (tree.put place .directory) := by
  refine ⟨rfl, fun other => ?_⟩
  rw [get?_put hplace]
  split
  next heq => exact .inr ⟨heq ▸ hnone, rfl⟩
  next => exact .inl rfl

/-- The pieces of a path may be followed in two stretches, the second from the
    place to which the first leads. -/
theorem walk_append (start : Place) (front back : List String) :
    tree.walk start (front ++ back) = tree.walk start front >>= fun place => tree.walk place back := by
  induction front generalizing start with
  | nil => rfl
  | cons piece front ih =>
    simp only [List.cons_append, walk]
    split_ifs
    · rfl
    · exact ih _
    · exact ih _
    · rfl
    · split
      · rfl
      · exact ih _

/-- A last piece that is not found is the name of nothing in the directory before it. -/
theorem get?_eq_none_of_walk {name : String} (h : tree.walk place [name] = .error .notFound) :
    tree.get? (place ++ [name]) = none := by
  cases hget : tree.get? (place ++ [name]) with
  | none => rfl
  | some _ =>
    simp only [walk, hget] at h
    split_ifs at h <;> cases h

/-- Whatever lies on the way to a directory is a directory, so that a change
    elsewhere does not change where a path leads. The place that is changed was no
    directory, which is enough to know that the way does not touch it. -/
theorem walk_put (hplace : place ≠ []) (hnot : tree.isDirectoryAt place = false) {start found : Place}
    {pieces : List String} (h : tree.walk start pieces = .ok found)
    (hfound : tree.isDirectoryAt found = true) :
    (tree.put place node).walk start pieces = .ok found := by
  have hget {other : Place} (hne : other ≠ place) :
      (tree.put place node).get? other = tree.get? other := by rw [get?_put hplace, if_neg hne]
  induction pieces generalizing start with
  | nil => exact h
  | cons piece pieces ih =>
    simp only [walk] at h ⊢
    cases hstart : tree.isDirectoryAt start with
    | false => simp [hstart] at h
    | true =>
      have hne : start ≠ place := by
        rintro rfl
        rw [hstart] at hnot
        cases hnot
      have hstart' : (tree.put place node).isDirectoryAt start = true := by
        rw [isDirectoryAt_iff, hget hne, ← isDirectoryAt_iff, hstart]
      simp only [hstart, hstart', Bool.not_true, Bool.false_eq_true, if_false] at h ⊢
      split_ifs at h ⊢
      · exact ih h
      · exact ih h
      · cases hnext : tree.get? (start ++ [piece]) with
        | none => simp [hnext] at h
        | some next =>
          simp only [hnext] at h
          have hnext' : start ++ [piece] ≠ place := by
            rintro rfl
            cases pieces with
            | nil =>
              cases h
              rw [hfound] at hnot
              cases hnot
            | cons _ _ => simp [walk, hnot] at h
          rw [hget hnext', hnext]
          exact ih h

/-- A directory is made only under a name that was free, which the failure to find
    it has shown. -/
theorem extends_makeDirectory {route : Route} (h : tree.makeDirectory route = .ok tree') :
    tree.Extends tree' := by
  unfold makeDirectory at h
  split at h
  · cases h
  next name hmissing hlast =>
    obtain ⟨parent, hparent, h⟩ := bind_eq_ok_iff.mp h
    split at h
    next =>
      obtain ⟨-, -, h⟩ := bind_eq_ok_iff.mp h
      cases h
      refine extends_put (by simp) (get?_eq_none_of_walk ?_)
      have hpieces : route.pieces = route.pieces.dropLast ++ [name] :=
        (List.dropLast_append_getLast? name hlast).symm
      unfold resolve at hmissing hparent
      split at hmissing
      · cases hmissing
      · split at hparent
        · cases hparent
        · rw [hpieces, walk_append, hparent] at hmissing
          exact hmissing
    next => cases h
  · cases h

/-- Being content with a directory that is there already changes nothing. -/
theorem extends_orDirectory {route : Route} {result : Except FileError FileTree}
    (hmade : ∀ made, result = .ok made → tree.Extends made)
    (h : tree.orDirectory route result = .ok tree') : tree.Extends tree' := by
  unfold orDirectory at h
  split at h
  next made =>
    cases h
    exact hmade _ rfl
  next =>
    split at h
    · split at h
      · cases h
        exact .refl _
      · cases h
    · cases h

/-- Directories are made where there was nothing, and nothing else is done,
    however many of those above are missing. -/
theorem extends_makeDirectories {absolute : Bool} {pieces : List String}
    (h : tree.makeDirectories absolute pieces = .ok tree') : tree.Extends tree' := by
  induction pieces generalizing tree' with
  | nil =>
    cases h
    exact .refl _
  | cons piece above ih =>
    simp only [makeDirectories] at h
    split at h
    · obtain ⟨made, hmade, h⟩ := bind_eq_ok_iff.mp h
      exact (ih hmade).trans (extends_orDirectory (fun _ => extends_makeDirectory) h)
    · exact extends_orDirectory (fun _ => extends_makeDirectory) h

theorem extends_makeParent {path : String} (h : tree.makeParent path = .ok tree') :
    tree.Extends tree' := by
  unfold makeParent at h
  split at h
  · cases h
    exact .refl _
  · exact extends_makeDirectories h

/-- A piece of a path that can be the name of a file. -/
structure IsFileName (name : String) : Prop where
  ne_empty : name ≠ ""
  ne_point : name ≠ "."
  ne_points : name ≠ ".."
  size_le : name.utf8ByteSize ≤ maxNameSize
  nul_not_mem : '\x00' ∉ name.toList

/-- A name of a file that is in a directory leads from the directory to the file. -/
theorem walk_name {name : String} (hname : IsFileName name)
    (hdirectory : tree.isDirectoryAt place = true) (hnode : tree.get? (place ++ [name]) = some node) :
    tree.walk place [name] = .ok (place ++ [name]) := by
  have hempty : ¬ (name = "" ∨ name = ".") := not_or.mpr ⟨hname.ne_empty, hname.ne_point⟩
  have hsize := Nat.not_lt.mpr hname.size_le
  simp only [walk, hdirectory, Bool.not_true, Bool.false_eq_true, if_false, hempty, hname.ne_points,
    gt_iff_lt, hsize, hnode]

/-- How a file comes to be written: its path ends in a name, what is before the
    name leads to a directory, and what is put there was no directory. All that is
    known of writing is derived from this. -/
theorem writeText_cases {path text : String} (h : tree.writeText path text = .ok tree') :
    ∃ above name parent, (Route.ofText path).pieces = above ++ [name] ∧ IsFileName name ∧
      tree.resolve ⟨(Route.ofText path).absolute, above⟩ = .ok parent ∧
      tree.isDirectoryAt parent = true ∧ tree.isDirectoryAt (parent ++ [name]) = false ∧
      tree' = tree.put (parent ++ [name]) (.file text.toUTF8) := by
  simp only [writeText] at h
  split at h
  · cases h
  next name above hpieces =>
    obtain ⟨parent, hparent, h⟩ := bind_eq_ok_iff.mp h
    split_ifs at h with hdirectory hspecial hname hsize hnul
    obtain ⟨-, -, h⟩ := bind_eq_ok_iff.mp h
    simp only [not_or] at hspecial
    obtain ⟨hpoint, hpoints, hslash⟩ := hspecial
    -- The path does not end with a slash, so there was nothing to drop behind the name.
    have hreverse : (Route.ofText path).pieces.reverse = name :: above := by
      cases hlist : (Route.ofText path).pieces.reverse with
      | nil => simp [hlist] at hpieces
      | cons last rest =>
        have hlast : (Route.ofText path).pieces.getLast? = some last := by
          rw [List.getLast?_eq_head?_reverse, hlist, List.head?_cons]
        have hne : last ≠ "" := fun heq => hslash (heq ▸ hlast)
        simpa [hlist, hne] using hpieces
    have hempty : name ≠ "" := by
      rintro rfl
      rw [List.getLast?_eq_head?_reverse, hreverse] at hslash
      exact hslash rfl
    refine ⟨above.reverse, name, parent, ?_, ⟨hempty, hpoint, hpoints, by omega, by simpa using hnul⟩,
      hparent, by simpa using hdirectory, by simpa using hname, (Except.ok.inj h).symm⟩
    rw [← List.reverse_cons, ← hreverse, List.reverse_reverse]

/-- A file put into a directory under a name is found there, by the same path by
    which the directory was found with the name behind it. -/
theorem resolve_put {name : String} {route : Route} {above : List String} {parent : Place}
    (hname : IsFileName name) (hpieces : route.pieces = above ++ [name])
    (hparent : tree.resolve ⟨route.absolute, above⟩ = .ok parent)
    (hdirectory : tree.isDirectoryAt parent = true)
    (hnot : tree.isDirectoryAt (parent ++ [name]) = false) :
    (tree.put (parent ++ [name]) node).resolve route = .ok (parent ++ [name]) := by
  have hplace : parent ++ [name] ≠ [] := by simp
  unfold resolve at hparent
  split at hparent
  · cases hparent
  next habove =>
    have hnul : ¬ (above ++ [name]).any (·.toList.contains '\x00') = true := by
      rw [List.any_append, Bool.or_eq_true, not_or]
      exact ⟨habove, by simpa using hname.nul_not_mem⟩
    have hway : (tree.put (parent ++ [name]) node).walk _ above = .ok parent :=
      walk_put hplace hnot hparent hdirectory
    have hnode : (tree.put (parent ++ [name]) node).get? (parent ++ [name]) = some node := by
      rw [get?_put hplace, if_pos rfl]
    rw [resolve, hpieces, if_neg hnul, walk_append]
    refine bind_eq_ok_iff.mpr ⟨parent, hway, walk_name hname ?_ hnode⟩
    rw [isDirectoryAt_iff, get?_put hplace, if_neg (by simp), ← isDirectoryAt_iff, hdirectory]

/-- A file that has been written is found under its path and holds the text, and
    nothing else has changed. -/
theorem find_of_writeText {path text : String} (h : tree.writeText path text = .ok tree') :
    ∃ place, tree'.find path = .ok place ∧ tree'.get? place = some (.file text.toUTF8) ∧
      ∀ other, other ≠ place → tree'.get? other = tree.get? other := by
  obtain ⟨above, name, parent, hpieces, hname, hparent, hdirectory, hnot, rfl⟩ := writeText_cases h
  have hplace : parent ++ [name] ≠ [] := by simp
  have hpath : path ≠ "" := by
    rintro rfl
    obtain rfl : name = "" := (List.append_eq_singleton_iff.mp hpieces.symm).elim
      (fun h => (List.cons.inj h.2).1) (fun h => absurd h.2 (by simp))
    exact hname.ne_empty rfl
  refine ⟨parent ++ [name], ?_, ?_, fun other hne => ?_⟩
  · rw [find, if_neg hpath]
    exact resolve_put hname hpieces hparent hdirectory hnot
  · rw [get?_put hplace, if_pos rfl]
  · rw [get?_put hplace, if_neg hne]

end FileTree

end SchemaTypes
